import Rim.Proofs.Choice.Catalogs
/-!
# What building a value answers

A registration may find its name or its tag taken.  Building a value never does: the families' own
payloads refuse an input as malformed, and nothing else goes wrong with them.

## Main definitions

* `VariantError.OnlyMalformed`: an outcome whose errors are those of malformed payloads.
* `Catalogs.Calm`: no builder answers that something is already taken.

## Main results

* `Catalogs.calm_standard`: the standard catalogs are calm.
* `Catalogs.Calm.buildTagged`, `Catalogs.Calm.buildNamed`: so is whatever calm catalogs build.
-/

namespace Rim

variable {α β T : Type}

/-! ## Malformed payloads -/

/-- An outcome whose errors are those of malformed payloads. -/
def VariantError.OnlyMalformed (x : Except VariantError α) : Prop :=
  ∀ e, x = .error e → e.kind = .variantParse

namespace VariantError

theorem onlyMalformed_ok (a : α) : OnlyMalformed (.ok a) := nofun

theorem onlyMalformed_invalid (typeName reason : String) :
    OnlyMalformed (.error (.invalid typeName reason) : Except VariantError α) := by
  rintro e ⟨⟩
  rfl

theorem onlyMalformed_wrongInput (typeName expected : String) :
    OnlyMalformed (.error (.wrongInput typeName expected) : Except VariantError α) := by
  rintro e ⟨⟩
  rfl

/-- What is made of a result fails as the result does. -/
theorem OnlyMalformed.map {x : Except VariantError α} (h : OnlyMalformed x) (g : α → β) :
    OnlyMalformed (x.map g) := by
  intro e he
  cases x with
  | ok a => cases he
  | error e' =>
    cases he
    exact h e rfl

/-- Steps that fail on malformed input only do so together. -/
theorem OnlyMalformed.bind {x : Except VariantError α} {next : α → Except VariantError β}
    (h : OnlyMalformed x) (hnext : ∀ a, OnlyMalformed (next a)) :
    OnlyMalformed (x.bind next) := by
  intro e he
  cases x with
  | ok a => exact hnext a e he
  | error e' =>
    cases he
    exact h e rfl

theorem onlyMalformed_refuse (typeName : String) (reason? : Option String) :
    OnlyMalformed (refuse typeName reason?) := by
  cases reason? with
  | none => exact onlyMalformed_ok ()
  | some reason => exact onlyMalformed_invalid typeName reason

/-- Text that is not in base 64 is malformed. -/
theorem onlyMalformed_decodeBase64 (typeName text : String) :
    OnlyMalformed (decodeBase64 typeName text) := by
  unfold decodeBase64
  cases Base64.decode? text with
  | none => exact onlyMalformed_invalid typeName _
  | some bytes => exact onlyMalformed_ok bytes

theorem onlyMalformed_uuid (x : Except UuidError α) : OnlyMalformed (Uuid.lift x) := by
  cases x with
  | ok a => exact onlyMalformed_ok a
  | error e => exact onlyMalformed_invalid "uuid" _

theorem onlyMalformed_oid (x : Except OidError α) : OnlyMalformed (Oid.lift x) := by
  cases x with
  | ok a => exact onlyMalformed_ok a
  | error e => exact onlyMalformed_invalid "oid" _

theorem onlyMalformed_digest (x : Except DigestError α) : OnlyMalformed (Digest.lift x) := by
  cases x with
  | ok a => exact onlyMalformed_ok a
  | error e => exact onlyMalformed_invalid "digest" _

theorem onlyMalformed_ofParts (id : Int) (value : List UInt8) :
    OnlyMalformed (Digest.ofParts id value) := by
  unfold Digest.ofParts
  split
  · exact onlyMalformed_ok _
  · exact onlyMalformed_digest _

theorem onlyMalformed_ofText (text : String) : OnlyMalformed (Digest.ofText text) := by
  unfold Digest.ofText
  dsimp only
  split
  · split
    · split
      · exact onlyMalformed_ok _
      · exact onlyMalformed_digest _
    · exact onlyMalformed_digest _
  · exact onlyMalformed_digest _

end VariantError

/-! ## Payload types -/

/-- Whatever is wrong with an input, it is a malformed payload. -/
structure PayloadType.OnlyMalformed (p : PayloadType α) : Prop where
  text : ∀ t, VariantError.OnlyMalformed (p.ofText t)
  json : ∀ v, VariantError.OnlyMalformed (p.ofJson v)
  cbor : ∀ v, VariantError.OnlyMalformed (p.ofCbor v)
  check : ∀ a, VariantError.OnlyMalformed (p.check a)

namespace PayloadType

open VariantError (onlyMalformed_ok onlyMalformed_wrongInput)

variable {p : PayloadType α}

theorem OnlyMalformed.ofInput (h : p.OnlyMalformed) (input : PayloadSource) :
    VariantError.OnlyMalformed (p.ofInput input) := by
  have hchecked : ∀ x : Except VariantError α, VariantError.OnlyMalformed x →
      VariantError.OnlyMalformed (x.bind fun a => (p.check a).bind fun _ => .ok a) :=
    fun x hx => hx.bind fun a => (h.check a).bind fun _ => onlyMalformed_ok a
  cases input with
  | empty => exact onlyMalformed_ok p.sentinel
  | text t => exact hchecked _ (h.text t)
  | json v => exact hchecked _ (h.json v)
  | cbor v => exact hchecked _ (h.cbor v)

/-- A value beside a name is commonly the text it spells. -/
theorem onlyMalformed_json {typeName : String} {ofText : String → Except VariantError α}
    (h : ∀ t, VariantError.OnlyMalformed (ofText t)) (v : Json) :
    VariantError.OnlyMalformed (match v with
      | .string text => ofText text
      | _ => .error (.wrongInput typeName "string")) := by
  cases v with
  | string text => exact h text
  | _ => exact onlyMalformed_wrongInput typeName "string"

/-- A type of texts refuses malformed input only. -/
theorem onlyMalformed_text (typeName : String) (tag : UInt64) (get : α → String)
    (make : String → α) (reason? : String → Option String) :
    (text typeName tag get make reason?).OnlyMalformed where
  text t := onlyMalformed_ok (make t)
  json v := onlyMalformed_json (fun t => onlyMalformed_ok (make t)) v
  cbor v := by
    cases v with
    | text t => exact onlyMalformed_ok (make t)
    | _ => exact onlyMalformed_wrongInput typeName "text string"
  check a := VariantError.onlyMalformed_refuse typeName (reason? (get a))

theorem onlyMalformed_byteString (typeName : String) (tag : UInt64) (get : α → List UInt8)
    (make : List UInt8 → α) (reason? : List UInt8 → Option String) :
    (byteString typeName tag get make reason?).OnlyMalformed where
  text t := (VariantError.onlyMalformed_decodeBase64 typeName t).map make
  json v := onlyMalformed_json (fun t =>
    (VariantError.onlyMalformed_decodeBase64 typeName t).map make) v
  cbor v := by
    cases v with
    | bytes b => exact onlyMalformed_ok (make b)
    | _ => exact onlyMalformed_wrongInput typeName "byte string"
  check a := VariantError.onlyMalformed_refuse typeName (reason? (get a))

end PayloadType

section Payloads

open VariantError PayloadType

theorem Uuid.onlyMalformed_payload : Uuid.payload.OnlyMalformed where
  text t := onlyMalformed_uuid _
  json v := onlyMalformed_json (fun t => onlyMalformed_uuid (parse t)) v
  cbor v := by
    cases v with
    | bytes b => exact onlyMalformed_uuid _
    | _ => exact onlyMalformed_wrongInput "uuid" "byte string"
  check u := by
    show VariantError.OnlyMalformed (if u.isNil then lift (.error .nil) else .ok ())
    split
    · exact onlyMalformed_uuid _
    · exact onlyMalformed_ok ()

theorem Oid.onlyMalformed_payload : Oid.payload.OnlyMalformed where
  text t := onlyMalformed_oid _
  json v := onlyMalformed_json (fun t => onlyMalformed_oid (ofText t)) v
  cbor v := by
    cases v with
    | bytes b => exact onlyMalformed_oid _
    | _ => exact onlyMalformed_wrongInput "oid" "byte string"
  check o := onlyMalformed_oid _

theorem TaggedInt.onlyMalformed_text (text : String) : OnlyMalformed (TaggedInt.ofText text) := by
  unfold TaggedInt.ofText
  cases signed? top text with
  | ok v => exact onlyMalformed_ok _
  | error cause => exact onlyMalformed_invalid "int" _

theorem TaggedInt.onlyMalformed_payload : TaggedInt.payload.OnlyMalformed where
  text t := onlyMalformed_text t
  json v := by
    cases v with
    | string text => exact onlyMalformed_text text
    | int v =>
      dsimp only [payload, ofJson]
      split
      · exact onlyMalformed_ok _
      · exact onlyMalformed_invalid "int" _
    | float bits => exact onlyMalformed_invalid "int" _
    | _ => exact onlyMalformed_wrongInput "int" "decimal string"
  cbor v := by
    cases v with
    | int v =>
      dsimp only [payload, ofCbor]
      split
      · exact onlyMalformed_ok _
      · exact onlyMalformed_invalid "int" _
    | bytes b =>
      show VariantError.OnlyMalformed (if b.length = 8 then .ok _ else invalid _)
      split
      · exact onlyMalformed_ok _
      · exact onlyMalformed_invalid "int" _
    | _ => exact onlyMalformed_wrongInput "int" "integer"
  check i := onlyMalformed_ok ()

theorem Digest.onlyMalformed_cbor (v : Cbor) : OnlyMalformed (Digest.ofCbor v) := by
  unfold Digest.ofCbor
  split
  · exact onlyMalformed_ofParts _ _
  · exact onlyMalformed_wrongInput "digest" "[alg, bytes]"
  · exact onlyMalformed_wrongInput "digest" "array"

theorem Thumbprint.onlyMalformed_payload : Thumbprint.payload.OnlyMalformed where
  text t := (VariantError.onlyMalformed_ofText t).map Thumbprint.mk
  json v := onlyMalformed_json (fun t => (VariantError.onlyMalformed_ofText t).map Thumbprint.mk) v
  cbor v := (Digest.onlyMalformed_cbor v).map Thumbprint.mk
  check t := by
    show VariantError.OnlyMalformed (if _ then .ok () else Digest.lift _)
    split
    · exact onlyMalformed_ok ()
    · exact onlyMalformed_digest _

end Payloads

/-! ## Catalogs -/

/-- A builder never answers that something is already taken. -/
def CatalogEntry.Calm (entry : CatalogEntry T) : Prop :=
  ∀ input e, entry.build input = .error e → e.kind ≠ .registryConflict

/-- No builder of a catalog does. -/
def Catalog.Calm (g : Catalog T) : Prop := ∀ entry ∈ g.byTag, entry.Calm

/-- No builder of any catalog does. -/
def Catalogs.Calm (r : Catalogs) : Prop := ∀ f g, r.get? f = some g → g.Calm

/-- The entry of such a payload type is calm. -/
theorem PayloadType.OnlyMalformed.calm {p : PayloadType α} (h : p.OnlyMalformed)
    {wrap : α → T} : (Catalog.entryOf p wrap).Calm := by
  intro input e he
  rw [((h.ofInput input).map wrap) e he]
  decide

/-- The payload types of the families refuse malformed input only. -/
theorem PayloadType.Standard.onlyMalformed {p : PayloadType α} (h : p.Standard) :
    p.OnlyMalformed := by
  cases h with
  | oid => exact Oid.onlyMalformed_payload
  | uuid => exact Uuid.onlyMalformed_payload
  | int => exact TaggedInt.onlyMalformed_payload
  | thumbprint => exact Thumbprint.onlyMalformed_payload
  | implId | ueid | bytes | coseKey | comid => exact onlyMalformed_byteString _ _ _ _ _
  | pkixKey | pkixCert | pkixCertPath | uri => exact onlyMalformed_text _ _ _ _ _

/-- The families' own variants refuse malformed payloads and nothing else. -/
theorem Catalogs.calm_standard : Catalogs.standard.Calm := by
  intro f g hg entry hentry
  obtain ⟨α, p, wrap, hp, -, rfl⟩ := exists_entryOf_standard hg hentry
  exact hp.onlyMalformed.calm

section Building

variable [TypeChoice T] {g : Catalog T}

/-- Building a tagged value is no conflict of registrations. -/
theorem Catalog.Calm.buildTagged (h : g.Calm) {tag : UInt64} {input : PayloadSource}
    {e : VariantError} (he : g.buildTagged tag input = .error e) : e.kind ≠ .registryConflict := by
  unfold Catalog.buildTagged at he
  cases hfound : g.findTag? tag with
  | none =>
    rw [hfound] at he
    cases he
    nofun
  | some entry =>
    rw [hfound] at he
    exact h entry (List.mem_of_find?_eq_some hfound) input e he

theorem Catalog.Calm.buildNamed (h : g.Calm) {name : String} {input : PayloadSource}
    {e : VariantError} (he : g.buildNamed name input = .error e) : e.kind ≠ .registryConflict := by
  unfold Catalog.buildNamed at he
  cases hfound : g.tagOf? name with
  | none =>
    rw [hfound] at he
    cases he
    nofun
  | some tag =>
    rw [hfound] at he
    exact h.buildTagged he

end Building

end Rim
