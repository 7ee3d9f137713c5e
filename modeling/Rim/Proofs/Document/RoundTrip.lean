import Rim.Proofs.Document.Travels
import Rim.Proofs.Record.Peek
import Rim.Session
/-!
# Documents are read back

A session writes valid documents only, and reads what it has written of one as the normal form of
that document.  The normal form does not depend on the format, so both formats say the same.

## Main results

* `Session.documents_travel`: documents of both kinds are read back.
* `Session.decodeComid_valid_iff`: when a module identifier that is read back is valid.
-/

namespace Rim

theorem Error.of_lift {ε α : Type} {wrap : ε → Error} {x : Except ε α} {a : α}
    (h : lift wrap x = .ok a) : x = .ok a := by
  cases x with
  | error e => cases h
  | ok b => exact congrArg Except.ok (Except.ok.inj h)

theorem Coded.of_ofWire {α : Type} {x : Except WireError α} {a : α}
    (h : Coded.ofWire x = .ok a) : x = .ok a := by
  cases x with
  | error e => cases h
  | ok b => exact congrArg Except.ok (Except.ok.inj h)

namespace Session

variable {s : Session} {f : Format} {bytes : List UInt8}

/-- Only valid documents are written. -/
theorem encode_eq_ok_iff {R : Type} [Document R] {d : R} :
    s.encode f d = .ok bytes ↔
      Validate.validate d = .ok () ∧ ∃ v, Document.encode f d = .ok v ∧
        f.toDocument s.config v = .ok bytes := by
  have hencode : s.encode f d = (Error.lift .validate (Validate.validate d)).bind fun _ =>
      Error.lift .record ((Document.encode f d).bind fun v =>
        Coded.ofWire (f.toDocument s.config v)) := rfl
  rw [hencode]
  constructor
  · intro h
    obtain ⟨_, hvalid, h⟩ := exists_of_bind_eq_ok h
    obtain ⟨v, hv, h⟩ := exists_of_bind_eq_ok (Error.of_lift h)
    exact ⟨Error.of_lift hvalid, v, hv, Coded.of_ofWire h⟩
  · rintro ⟨hvalid, v, hv, hbytes⟩
    rw [hvalid]
    show Error.lift .record ((Document.encode f d).bind _) = _
    rw [hv]
    show Error.lift .record (Coded.ofWire (f.toDocument s.config v)) = _
    rw [hbytes]
    rfl

theorem context_eq {profile : Option ProfileId} (hprofile : s.profiles.named? profile = none) :
    s.context profile = ⟨s.catalogs, none⟩ := by
  unfold context
  rw [hprofile]
  rfl

theorem context_some {id : Option ProfileId} {p : Profile} (hp : s.profiles.named? id = some p) :
    s.context id = ⟨s.catalogs, some p.hooks⟩ := by
  unfold context
  rw [hp]
  rfl

theorem build_eq {R : Type} [Document R] {profile : Option ProfileId}
    (hprofile : s.profiles.named? profile = none) :
    (s.build profile : Except Error R) = .ok Buildable.blank := by
  unfold build ProfileIndex.build
  rw [hprofile]
  rfl

/-- A fresh document of a registered profile is a blank one with the hooks of the profile attached,
and holds the profile if documents of its kind do. -/
theorem build_eq_ok_iff {R : Type} [Document R] {id : Option ProfileId} {p : Profile} {root : R}
    (hp : s.profiles.named? id = some p) :
    s.build id = .ok root ↔
      ∃ d : R, (Attachable.attach p.hooks (Buildable.blank : R)).toExcept = .ok d ∧
        Buildable.withProfile p.id d = root := by
  have hbuild : (s.build id : Except Error R) = Error.lift .attach
      ((Attachable.attach p.hooks (Buildable.blank : R)).toExcept.bind fun d =>
        .ok (Buildable.withProfile p.id d)) := by
    unfold build ProfileIndex.build
    rw [hp]
    rfl
  rw [hbuild]
  constructor
  · intro h
    obtain ⟨d, hattach, h⟩ := exists_of_bind_eq_ok (Error.of_lift h)
    exact ⟨d, hattach, Except.ok.inj h⟩
  · rintro ⟨d, hattach, rfl⟩
    rw [hattach]
    rfl

/-- A document is read as the raw value that it holds. -/
theorem parse_of_reread? {v w : Raw f} (h : f.reread? v = some w) (hdepth : f.depth v ≤ 127)
    (hconfig : s.config.maxInputBytes < 18446744073709551616)
    (hbytes : f.toDocument s.config v = .ok bytes)
    (hlen : bytes.length ≤ s.config.maxInputBytes) : s.parse f bytes = .ok w := by
  unfold parse
  rw [Format.ofDocument_toDocument h hdepth hconfig hbytes hlen]
  rfl

/-- The document of a plain raw value is read as that value. -/
theorem parse_eq {n : Nat} {v : Raw f} (hplain : f.Plain n v) (hn : n ≤ 127)
    (hconfig : s.config.maxInputBytes < 18446744073709551616)
    (hbytes : f.toDocument s.config v = .ok bytes)
    (hlen : bytes.length ≤ s.config.maxInputBytes) : s.parse f bytes = .ok v :=
  parse_of_reread? hplain.reread?_eq (hplain.depth_le.trans hn) hconfig hbytes hlen

/-- A module identifier is read into the root that a session builds. -/
theorem decodeComid_of_parse {profile : Option ProfileId} {root d : Comid} {v : Raw f}
    (hbuild : s.build profile = .ok root) (hparse : s.parse f bytes = .ok v)
    (hread : comidShape.decodeAttached f (s.context profile) root v = .ok d) :
    s.decodeComid f profile bytes = .ok d := by
  unfold decodeComid
  rw [hbuild]
  show (s.parse f bytes).bind _ = _
  rw [hparse]
  show Error.lift .record _ = _
  rw [hread]
  rfl

/-- A manifest is read into the root that a session builds for the profile that it holds. -/
theorem decodeCorim_of_parse {root d : Corim} {v : Raw f}
    (hbuild : s.build d.profile = .ok root) (hparse : s.parse f bytes = .ok v)
    (hread : corimShape.decodeAttached f (s.context d.profile) root v = .ok d) :
    s.decodeCorim f bytes = .ok d := by
  have hcatalogs : (s.context none).catalogs = (s.context d.profile).catalogs := rfl
  have hdeclared := Corim.declaredProfile_of_decodeAttached hcatalogs hread
  unfold decodeCorim
  rw [hparse]
  show (Error.lift .record (Corim.declaredProfile f (s.context none) v)).bind _ = _
  rw [hdeclared]
  show ((s.build d.profile : Except Error Corim)).bind _ = _
  rw [hbuild]
  show Error.lift .record _ = _
  rw [hread]
  rfl

/-- A written module identifier is read back in its normal form.  A valid document is written as
plain values, and these are read as they were. -/
theorem decodeComid_encode (hcatalogs : s.catalogs.Includes .standard)
    (hconfig : s.config.maxInputBytes < 18446744073709551616) {d : Comid} (hown : d.IsOwn)
    (hnone : Slotted.hooks d = []) (henc : s.encode f d = .ok bytes)
    (hlen : bytes.length ≤ s.config.maxInputBytes) :
    s.decodeComid f none bytes = .ok d.normalized := by
  obtain ⟨hvalid, v, hv, hbytes⟩ := encode_eq_ok_iff.1 henc
  have hslots : d.EverySlot fun standIns _ slot =>
      slot.Travels f ((s.context none).withStandIns standIns) 0 :=
    Comid.everySlot_of_hookless (fun _ _ => .of_none rfl rfl) hnone
  have hsame : Slot.SameHook (Buildable.blank : Comid).hook d.hook := by
    rw [(Comid.hooks_eq_nil_iff.1 hnone).1]
    exact .refl none
  obtain ⟨hread, hplain⟩ := Comid.decodeAttached_encode hcatalogs hown hslots rfl hvalid hsame hv
  rw [← Comid.settled_eq_normalized hnone]
  exact decodeComid_of_parse (build_eq rfl) (parse_eq hplain (by decide) hconfig hbytes hlen) hread

/-- A written manifest is read back in its normal form, unless its profile is registered. -/
theorem decodeCorim_encode (hcatalogs : s.catalogs.Includes .standard)
    (hconfig : s.config.maxInputBytes < 18446744073709551616) {d : Corim} (hown : d.IsOwn)
    (hnone : Slotted.hooks d = []) (hprofile : s.profiles.named? d.profile = none)
    (henc : s.encode f d = .ok bytes) (hlen : bytes.length ≤ s.config.maxInputBytes) :
    s.decodeCorim f bytes = .ok d.normalized := by
  obtain ⟨hvalid, v, hv, hbytes⟩ := encode_eq_ok_iff.1 henc
  have hhooks : (s.context d.profile).hooks = none := by
    rw [context_eq hprofile]
  have hslots : d.EverySlot fun _ slot => slot.Travels f (s.context d.profile) 0 :=
    Corim.everySlot_of_hookless (fun _ => .of_none hhooks rfl) hnone
  have hsame : Slot.SameHook (Buildable.blank : Corim).hook d.hook := by
    rw [(Corim.hooks_eq_nil_iff.1 hnone).1]
    exact .refl none
  obtain ⟨hread, hplain⟩ := Corim.decodeAttached_encode hcatalogs hown hslots hvalid hsame hv
  rw [← Corim.settled_eq_normalized hnone]
  exact decodeCorim_of_parse (build_eq hprofile)
    (parse_eq hplain (by decide) hconfig hbytes hlen) hread

/-! ## Sample documents

They say some things as reading would not find them: with texts that are empty, and with a role
given by the number of a listed one. -/

/-- A module identifier with one triple of keys, about a class of a vendor. -/
def keyedComid (vendor : String) : Comid where
  language := some ""
  tagIdentity := { tagId := .text "t" }
  entities := [{ identity := { name := "ACME" }, roles := [.other 1] }]
  triples := { devIdentityKeys := [{
    environment := { envClass := some { vendor := some vendor } }
    verificationKeys := [.coseKey ⟨[1]⟩] }] }

/-- A manifest of a profile that nobody registered. -/
def profiledCorim : Corim where
  id := .text "m"
  tags := [.comid ⟨[0]⟩]
  profile := some (.oid ⟨[2, 999, 3]⟩)
  entities := [{ identity := { name := "ACME" }, roles := [.other 1] }]

theorem isOwn_keyedComid (vendor : String) : (keyedComid vendor).IsOwn := by
  simp only [keyedComid, Comid.IsOwn, Triples.IsOwn, KeyTriple.IsOwn, Environment.IsOwn,
    EnvClass.IsOwn, TypeChoice.IsOwn, Option.mem_def, Option.some.injEq, List.mem_singleton,
    List.not_mem_nil, reduceCtorEq, forall_eq, forall_eq', false_implies, implies_true, and_true,
    true_and]
  rfl

theorem keepsContent_keyedComid {vendor : String} (h : vendor.isEmpty = false) :
    (keyedComid vendor).KeepsContent := by
  have hvendor : dropEmpty (some vendor) = some vendor := by
    rw [dropEmpty, Option.filter_some, h]
    rfl
  simp only [keyedComid, Comid.KeepsContent, Triples.KeepsContent, KeyTriple.KeepsContent,
    Environment.KeepsContent, EnvClass.KeepsContent, EnvClass.normalized, hvendor, Option.mem_def,
    Option.some.injEq, List.mem_singleton, List.not_mem_nil, forall_eq, forall_eq', false_implies,
    implies_true, and_true, true_and]
  rfl

theorem isOwn_profiledCorim : profiledCorim.IsOwn := by
  constructor
  · intro t ht
    obtain rfl := List.mem_singleton.1 ht
    rfl
  · intro p hp
    obtain rfl := Option.some.inj hp
    rfl

/-! ## Round trips -/

/-- What a session writes of a document that holds own variants only and carries no hooks, it reads
as the normal form of that document, whichever the format.  The limit of a session is a machine
word. -/
theorem documents_travel (s : Session) (hcatalogs : s.catalogs.Includes .standard)
    (hconfig : s.config.maxInputBytes < 18446744073709551616) (f : Format) (bytes : List UInt8)
    (hlen : bytes.length ≤ s.config.maxInputBytes) :
    (∀ d : Comid, d.IsOwn → Slotted.hooks d = [] → s.encode f d = .ok bytes →
        s.decodeComid f none bytes = .ok d.normalized) ∧
      ∀ d : Corim, d.IsOwn → Slotted.hooks d = [] → s.profiles.named? d.profile = none →
        s.encode f d = .ok bytes → s.decodeCorim f bytes = .ok d.normalized := by
  constructor
  · intro d hown hnone henc
    exact decodeComid_encode hcatalogs hconfig hown hnone henc hlen
  · intro d hown hnone hprofile henc
    exact decodeCorim_encode hcatalogs hconfig hown hnone hprofile henc hlen

theorem documents_travel_samples :
    (∃ bytes, encode {} .json (keyedComid "ACME") = .ok bytes ∧
        decodeComid {} .json none bytes = .ok (keyedComid "ACME").normalized) ∧
      ∃ bytes, encode {} .cbor profiledCorim = .ok bytes ∧
        decodeCorim {} .cbor bytes = .ok profiledCorim.normalized := by
  obtain ⟨text, htext, hlen⟩ :
      ∃ bytes, encode {} .json (keyedComid "ACME") = .ok bytes ∧ bytes.length ≤ 1048576 :=
    ⟨_, rfl, by decide +kernel⟩
  obtain ⟨binary, hbinary, hlen'⟩ :
      ∃ bytes, encode {} .cbor profiledCorim = .ok bytes ∧ bytes.length ≤ 1048576 :=
    ⟨_, rfl, by decide +kernel⟩
  have hcomid := (documents_travel {} (.refl _) (by decide) .json text hlen).1
  have hcorim := (documents_travel {} (.refl _) (by decide) .cbor binary hlen').2
  constructor
  · exact ⟨text, htext, hcomid _ (isOwn_keyedComid "ACME") rfl htext⟩
  · exact ⟨binary, hbinary, hcorim _ isOwn_profiledCorim rfl rfl hbinary⟩

/-! ## Validity of what is read

Validation takes an optional field that is there for content, and writing leaves it out if it is
empty.  So a class or measured values whose only content is empty are valid when they are written
and invalid when they are read back. -/

/-- What a session writes of a module identifier is always read; and what is read is valid, exactly
if every class and all measured values say something beside empty texts and empty raw values.  What
is read is the normal form, so its validity is the question. -/
theorem decodeComid_valid_iff (s : Session) (hcatalogs : s.catalogs.Includes .standard)
    (hconfig : s.config.maxInputBytes < 18446744073709551616) (f : Format) (d : Comid)
    (hown : d.IsOwn) (hnone : Slotted.hooks d = []) (bytes : List UInt8)
    (henc : s.encode f d = .ok bytes) (hlen : bytes.length ≤ s.config.maxInputBytes) :
    ∃ d', s.decodeComid f none bytes = .ok d' ∧
      (Validate.validate d' = .ok () ↔ d.KeepsContent) := by
  refine ⟨d.normalized, decodeComid_encode hcatalogs hconfig hown hnone henc hlen, ?_⟩
  exact Comid.validate_normalized_iff hnone (encode_eq_ok_iff.1 henc).1

theorem decodeComid_valid_keyed :
    (keyedComid "ACME").KeepsContent ∧
      ∃ bytes d', encode {} .json (keyedComid "ACME") = .ok bytes ∧
        decodeComid {} .json none bytes = .ok d' ∧ Validate.validate d' = .ok () := by
  obtain ⟨bytes, henc, hlen⟩ :
      ∃ bytes, encode {} .json (keyedComid "ACME") = .ok bytes ∧ bytes.length ≤ 1048576 :=
    ⟨_, rfl, by decide +kernel⟩
  have hkeeps : (keyedComid "ACME").KeepsContent := keepsContent_keyedComid rfl
  obtain ⟨d', hread, hvalid⟩ := decodeComid_valid_iff {} (.refl _) (by decide) .json
    (keyedComid "ACME") (isOwn_keyedComid "ACME") rfl bytes henc hlen
  exact ⟨hkeeps, bytes, d', henc, hread, hvalid.2 hkeeps⟩

/-- A class that says nothing but an empty vendor is valid, is written, and is read as an empty
class, which is not valid. -/
theorem decodeComid_hollow :
    Validate.validate (keyedComid "") = .ok () ∧
      ∃ bytes d', encode {} .json (keyedComid "") = .ok bytes ∧ bytes.length ≤ 1048576 ∧
        decodeComid {} .json none bytes = .ok d' ∧
        Validate.validate d' = .error (.field "triples" (.field "dev-identity-keys"
          (.item "triple" 0 (.field "environment" (.field "class" (.invalid .emptyClass)))))) := by
  obtain ⟨bytes, henc, hlen⟩ :
      ∃ bytes, encode {} .json (keyedComid "") = .ok bytes ∧ bytes.length ≤ 1048576 :=
    ⟨_, rfl, by decide +kernel⟩
  have hread : decodeComid {} .json none bytes = .ok (keyedComid "").normalized :=
    decodeComid_encode (.refl _) (by decide) (isOwn_keyedComid "") rfl henc hlen
  exact ⟨rfl, bytes, _, henc, hlen, hread, rfl⟩

end Session

end Rim
