import Rim.Proofs.Choice.History
import Rim.Proofs.Choice.RoundTrip
import Rim.Proofs.Payload.Ber
/-!
# Choices are decoded exactly

A raw value is read as a choice exactly if it has the form of one, what tells its variant apart is
registered, and the payload type registered under it accepts the payload.  This needs every entry of
the catalog to come from a payload type, which is what registering payload types, in any number and
order and with any failures, leads to.

What is read of a standard payload type is valid, so it is written again.  The spelling may change
on the way: digits of either case, signs and leading zeros, integers as eight bytes.  What is
written has the same name or tag and is read as the same value.

## Main definitions

* `CatalogCall.OfPayload`, `Catalog.after`: catalogs of payload types.
* `Format.IsChoice`, `Format.IsUntyped`: what a choice looks like in a format, and what one without
  name or tag looks like.

## Main results

* `Catalog.Payloads.after`: every entry comes from a payload type.
* `FieldCodec.decodeChoice_eq_ok_iff`: what is read, and as which value.
* `FieldCodec.choice_decoding_exact`: this together with what is known of the value that was read.
-/

namespace Rim

open Catalog (entryOf)

/-! ## Catalogs of payload types -/

section Payloads

variable {T : Type} [TypeChoice T]

/-- A call that registers a payload type, as one of the family's own or from outside, or removes
one. -/
def CatalogCall.OfPayload : CatalogCall T → Prop
  | .registerPayload p wrap => p.ShownBy wrap
  | .registerForeign p => p.ShownBy fun a => (TypeChoice.ofVariant (p.variant a) : T)
  | .unregister _ => True
  | .register _ _ _ => False
  | .registerBuilder _ _ => False

namespace Catalog

/-- The catalog after some calls, whatever their outcomes. -/
def after (calls : List (CatalogCall T)) : Catalog T :=
  calls.foldl (fun g c => c.next g) empty

/-- Every entry comes from a payload type. -/
def Payloads (g : Catalog T) : Prop :=
  ∀ e ∈ g.byTag, ∃ (α : Type) (p : PayloadType α) (wrap : α → T),
    p.ShownBy wrap ∧ e = entryOf p wrap

theorem reported_entryOf {α : Type} {p : PayloadType α} {wrap : α → T} (h : p.ShownBy wrap) :
    reported (entryOf p wrap).build = .ok (p.typeName, p.tag) := by
  show Except.ok (TypeChoice.typeName (wrap p.sentinel), TypeChoice.tag (wrap p.sentinel)) = _
  unfold TypeChoice.typeName TypeChoice.tag
  rw [h]
  rfl

/-- What a call registers comes from a payload type, if the call is about one. -/
theorem exists_entryOf_of_registers {c : CatalogCall T} (hc : c.OfPayload) {g : Catalog T}
    {e : CatalogEntry T} (h : c.Registers g e) :
    ∃ (α : Type) (p : PayloadType α) (wrap : α → T), p.ShownBy wrap ∧ e = entryOf p wrap := by
  have hentry : ∀ {α : Type} (p : PayloadType α) (wrap : α → T), p.ShownBy wrap →
      (entryOf p wrap).build = e.build → e = entryOf p wrap := by
    intro α p wrap hshown hbuild
    have hreported := h.reported
    rw [← hbuild, reported_entryOf hshown] at hreported
    obtain ⟨hname, htag⟩ := Prod.mk.inj (Except.ok.inj hreported)
    cases e
    cases hname
    cases htag
    cases hbuild
    rfl
  have hbuilder := h.builder
  cases c with
  | registerPayload p wrap => exact ⟨_, p, wrap, hc, hentry p wrap hc (Option.some.inj hbuilder)⟩
  | registerForeign p => exact ⟨_, p, _, hc, hentry p _ hc (Option.some.inj hbuilder)⟩
  | unregister name => cases hbuilder
  | register name tag build => exact absurd hc id
  | registerBuilder tag build => exact absurd hc id

/-- Every call on a catalog of payload types leaves such a catalog. -/
theorem Payloads.next {g : Catalog T} (h : g.Payloads) (hcoherent : g.Coherent)
    {c : CatalogCall T} (hc : c.OfPayload) : (c.next g).Payloads := by
  intro e he
  rcases (c.mem_next_iff hcoherent).1 he with hreg | ⟨he, -⟩
  · exact exists_entryOf_of_registers hc hreg
  · exact h e he

/-- Calls about payload types lead to a coherent catalog, every entry of which comes from one. -/
theorem Payloads.after {calls : List (CatalogCall T)} (h : ∀ c ∈ calls, c.OfPayload) :
    (Catalog.after calls).Coherent ∧ (Catalog.after calls).Payloads := by
  suffices hrun : ∀ g : Catalog T, g.Coherent → g.Payloads →
      (calls.foldl (fun g c => c.next g) g).Coherent ∧
        (calls.foldl (fun g c => c.next g) g).Payloads from
    hrun empty coherent_empty fun _ he => nomatch he
  induction calls with
  | nil => exact fun g hcoherent hpayloads => ⟨hcoherent, hpayloads⟩
  | cons c calls ih =>
    obtain ⟨hc, hcalls⟩ := List.forall_mem_cons.1 h
    intro g hcoherent hpayloads
    exact ih hcalls _ (c.coherent_next hcoherent) (hpayloads.next hcoherent hc)

omit [TypeChoice T] in
/-- A coherent catalog builds the types of its entries. -/
theorem Coherent.builds_of_mem {g : Catalog T} (h : g.Coherent) {α : Type} {p : PayloadType α}
    {wrap : α → T} (he : entryOf p wrap ∈ g.byTag) : g.Builds p wrap where
  name := h.tagOf?_eq_some_iff.2 ⟨_, he, rfl, rfl⟩
  tag := h.findTag?_eq_some_iff.2 ⟨he, rfl⟩

/-- A registered tag is that of a payload type, which is found under its name too. -/
theorem Payloads.exists_builds_of_findTag? {g : Catalog T} (h : g.Payloads) (hcoherent : g.Coherent)
    {tag : UInt64} {e : CatalogEntry T} (hfound : g.findTag? tag = some e) :
    ∃ (α : Type) (p : PayloadType α) (wrap : α → T), p.ShownBy wrap ∧ g.Builds p wrap ∧
      p.tag = tag ∧ e = entryOf p wrap := by
  obtain ⟨he, htag⟩ := hcoherent.findTag?_eq_some_iff.1 hfound
  obtain ⟨α, p, wrap, hshown, rfl⟩ := h e he
  exact ⟨α, p, wrap, hshown, hcoherent.builds_of_mem he, htag, rfl⟩

/-- Payload types of one name are built alike. -/
theorem Builds.map_ofInput_eq {g : Catalog T} {α β : Type} {p : PayloadType α} {q : PayloadType β}
    {wrap : α → T} {wrap' : β → T} (hp : g.Builds p wrap) (hq : g.Builds q wrap')
    (hname : p.typeName = q.typeName) (source : PayloadSource) :
    (p.ofInput source).map wrap = (q.ofInput source).map wrap' := by
  rw [← hp.buildNamed, ← hq.buildNamed, hname]

end Catalog

end Payloads

/-! ## The form of a choice -/

/-- A raw value has the form of a choice, with what its payload is read from: an item under the tag,
or an object of at most two members, one of which is the name. -/
def Format.IsChoice (name : String) (tag : UInt64) (source : PayloadSource) :
    (f : Format) → Raw f → Prop
  | .cbor, v => ∃ payload, v = .tag tag payload ∧ source = .cbor payload
  | .json, v => ∃ members, v = .object members ∧
      (∀ m ∈ members, m.1 = "type" ∨ m.1 = "value") ∧
      Json.find? "type" members = some (.string name) ∧ name ≠ "" ∧
      source = .json ((Json.find? "value" members).getD .null)

/-- A raw value that would be a choice, had it a tag or a name. -/
def Format.IsUntyped : (f : Format) → Raw f → Prop
  | .cbor, v => ∀ tag payload, v ≠ .tag tag payload
  | .json, v => ∃ members, v = .object members ∧
      (∀ m ∈ members, m.1 = "type" ∨ m.1 = "value") ∧
      (Json.find? "type" members = none ∨ Json.find? "type" members = some (.string ""))

theorem Format.IsChoice.source_ne_empty {name : String} {tag : UInt64} {source : PayloadSource}
    {f : Format} {v : Raw f} (h : f.IsChoice name tag source v) : source ≠ .empty := by
  cases f with
  | cbor =>
    obtain ⟨payload, -, rfl⟩ := h
    exact fun h => nomatch h
  | json =>
    obtain ⟨members, -, -, -, -, rfl⟩ := h
    exact fun h => nomatch h

/-- What is built of any input but none is what that input spells, and passes its check. -/
theorem PayloadType.ofInput_eq_ok_iff {α : Type} {p : PayloadType α} {source : PayloadSource}
    {a : α} (hne : source ≠ .empty) :
    p.ofInput source = .ok a ↔ p.parse source = .ok a ∧ p.check a = .ok () := by
  constructor
  · intro h
    have hsteps : (p.parse source).bind (fun a => (p.check a).bind fun _ => .ok a) = .ok a := by
      cases source with
      | empty => exact absurd rfl hne
      | text _ | json _ | cbor _ => exact h
    obtain ⟨b, hparse, hrest⟩ := exists_of_bind_eq_ok hsteps
    obtain ⟨_, hcheck, hb⟩ := exists_of_bind_eq_ok hrest
    obtain rfl := Except.ok.inj hb
    exact ⟨hparse, hcheck⟩
  · rintro ⟨hparse, hcheck⟩
    exact ofInput_of_parse hne hparse hcheck

namespace FieldCodec

variable {T : Type} [TypeChoice T] {g : Catalog T} {f : Format} {v : Raw f} {x : T}

theorem filter_extra_isEmpty_iff {members : List (String × Json)} :
    (!((members.map (·.1)).filter fun name => name != "type" && name != "value").isEmpty) = false ↔
      ∀ m ∈ members, m.1 = "type" ∨ m.1 = "value" := by
  rw [Bool.not_eq_false', List.isEmpty_iff, List.filter_eq_nil_iff, List.forall_mem_map]
  refine forall₂_congr fun m _ => ?_
  rw [Bool.and_eq_true, bne_iff_ne, bne_iff_ne, not_and_or, not_not, not_not]

/-- An object of at most the two members is a choice if it is named, and untyped if it is not. -/
theorem decodeNamed_eq_ok_iff {v : Json} :
    decodeNamed g v = .ok x ↔
      ∃ name source, (∀ tag, Format.IsChoice name tag source .json v) ∧
        g.buildNamed name source = .ok x := by
  constructor
  · intro h
    unfold decodeNamed at h
    split at h
    case h_2 => cases h
    case h_1 members =>
      dsimp only at h
      split at h
      case isTrue => cases h
      case isFalse honly =>
        have honly := filter_extra_isEmpty_iff.1 (Bool.not_eq_true _ ▸ honly)
        split at h
        case h_1 => cases h
        case h_3 => cases h
        case h_2 name htype =>
          split at h
          case isTrue => cases h
          case isFalse hname =>
            refine ⟨name, _, fun tag => ⟨members, rfl, honly, htype, ?_, rfl⟩, Coded.of_ofChoice h⟩
            rintro rfl
            exact hname rfl
  · rintro ⟨name, source, hform, hbuild⟩
    obtain ⟨members, rfl, honly, htype, hname, rfl⟩ := hform 0
    unfold decodeNamed
    dsimp only
    rw [if_neg (by rw [filter_extra_isEmpty_iff.2 honly]; exact Bool.false_ne_true), htype]
    dsimp only
    rw [if_neg (by rwa [String.isEmpty_iff]), hbuild]
    rfl

/-- A tagged value is read by what is registered under its tag. -/
theorem decodeTagged_eq_ok_iff {v : Cbor} :
    decodeTagged g v = .ok x ↔
      ∃ tag source, (∀ name, Format.IsChoice name tag source .cbor v) ∧
        g.buildTagged tag source = .ok x := by
  constructor
  · intro h
    unfold decodeTagged at h
    split at h
    case h_1 tag payload => exact ⟨tag, _, fun _ => ⟨payload, rfl, rfl⟩, Coded.of_ofChoice h⟩
    case h_2 => cases h
  · rintro ⟨tag, source, hform, hbuild⟩
    obtain ⟨payload, rfl, rfl⟩ := hform ""
    show Coded.ofChoice (g.buildTagged tag (.cbor payload)) = _
    rw [hbuild]
    rfl

/-- A raw value is read as a choice exactly if it has the form of one, and the payload type that is
registered under its tag or name accepts the payload. -/
theorem decodeChoice_eq_ok_iff (hcoherent : g.Coherent) (hpayloads : g.Payloads) :
    decodeChoice g f v = .ok x ↔
      ∃ (α : Type) (p : PayloadType α) (wrap : α → T) (a : α) (source : PayloadSource),
        p.ShownBy wrap ∧ g.Builds p wrap ∧ f.IsChoice p.typeName p.tag source v ∧
          p.ofInput source = .ok a ∧ wrap a = x := by
  have hbuilt : ∀ {tag : UInt64} {source : PayloadSource}, g.buildTagged tag source = .ok x →
      ∃ (α : Type) (p : PayloadType α) (wrap : α → T) (a : α), p.ShownBy wrap ∧ g.Builds p wrap ∧
        p.tag = tag ∧ p.ofInput source = .ok a ∧ wrap a = x := by
    intro tag source h
    unfold Catalog.buildTagged at h
    split at h
    case h_2 => cases h
    case h_1 e hfound =>
      obtain ⟨α, p, wrap, hshown, hb, htag, rfl⟩ :=
        hpayloads.exists_builds_of_findTag? hcoherent hfound
      obtain ⟨a, ha, hx⟩ := exists_of_map_eq_ok h
      exact ⟨α, p, wrap, a, hshown, hb, htag, ha, hx⟩
  constructor
  · intro h
    cases f with
    | cbor =>
      obtain ⟨tag, source, hform, hbuild⟩ := decodeTagged_eq_ok_iff.1 h
      obtain ⟨α, p, wrap, a, hshown, hb, rfl, ha, hx⟩ := hbuilt hbuild
      exact ⟨α, p, wrap, a, source, hshown, hb, hform _, ha, hx⟩
    | json =>
      obtain ⟨name, source, hform, hbuild⟩ := decodeNamed_eq_ok_iff.1 h
      unfold Catalog.buildNamed at hbuild
      split at hbuild
      case h_2 => cases hbuild
      case h_1 tag hname =>
        obtain ⟨α, p, wrap, a, hshown, hb, rfl, ha, hx⟩ := hbuilt hbuild
        obtain ⟨e, he, rfl, htag⟩ := hcoherent.tagOf?_eq_some_iff.1 hname
        have hentry := hcoherent.findTag?_eq_some_iff.2 ⟨he, htag⟩
        rw [hb.tag] at hentry
        obtain rfl := Option.some.inj hentry
        exact ⟨α, p, wrap, a, source, hshown, hb, hform _, ha, hx⟩
  · rintro ⟨α, p, wrap, a, source, -, hb, hform, ha, rfl⟩
    have hmap : (p.ofInput source).map wrap = .ok (wrap a) := by
      rw [ha]
      rfl
    cases f with
    | cbor =>
      exact decodeTagged_eq_ok_iff.2 ⟨p.tag, source, fun _ => hform, (hb.buildTagged _).trans hmap⟩
    | json =>
      have hbuilt := (hb.buildNamed source).trans hmap
      exact decodeNamed_eq_ok_iff.2 ⟨p.typeName, source, fun _ => hform, hbuilt⟩

/-- Nothing stands in for a tag or a name that is not there. -/
theorem decodeChoice_of_isUntyped (h : f.IsUntyped v) :
    decodeChoice g f v = .error (.choice (.untyped (TypeChoice.family T))) := by
  cases f with
  | cbor =>
    show decodeTagged g v = _
    unfold decodeTagged
    split
    case h_1 tag payload => exact absurd rfl (h tag payload)
    case h_2 => rfl
  | json =>
    obtain ⟨members, rfl, honly, htype⟩ := h
    show decodeNamed g (.object members) = _
    unfold decodeNamed
    dsimp only
    rw [if_neg (by rw [filter_extra_isEmpty_iff.2 honly]; exact Bool.false_ne_true)]
    rcases htype with htype | htype
    · rw [htype]
    · rw [htype]
      rfl

/-- A value that was read is valid, and reports the name and the tag that it was read under. -/
theorem check_of_decodeChoice (hcoherent : g.Coherent) (hpayloads : g.Payloads)
    (h : decodeChoice g f v = .ok x) :
    TypeChoice.check x = .ok () ∧ g.tagOf? (TypeChoice.typeName x) = some (TypeChoice.tag x) ∧
      ∃ source, f.IsChoice (TypeChoice.typeName x) (TypeChoice.tag x) source v := by
  obtain ⟨α, p, wrap, a, source, hshown, hb, hform, ha, rfl⟩ :=
    (decodeChoice_eq_ok_iff hcoherent hpayloads).1 h
  unfold TypeChoice.check TypeChoice.typeName TypeChoice.tag
  rw [hshown a]
  exact ⟨((PayloadType.ofInput_eq_ok_iff hform.source_ne_empty).1 ha).2, hb.name, source, hform⟩

end FieldCodec

/-! ## Standard payload types

Each of them writes whatever it has read, in the format it was read from. -/

namespace PayloadType.Standard

variable {α : Type} {p : PayloadType α}

theorem lawful (h : p.Standard) : p.Lawful := by
  cases h with
  | oid => exact Oid.lawful_payload
  | uuid => exact Uuid.lawful_payload
  | int => exact TaggedInt.lawful_payload
  | thumbprint => exact Thumbprint.lawful_payload
  | implId | ueid | bytes | coseKey | comid => exact lawful_byteString _ _ _ fun _ => rfl
  | pkixKey | pkixCert | pkixCertPath | uri => exact lawful_text _ _ _ fun _ => rfl

theorem named (h : p.Standard) : p.typeName.isEmpty = false := by
  cases h <;> rfl

/-- What was read from an item can be written as one.  An object identifier can, because its first
two arcs came from one number. -/
theorem exists_toCbor (h : p.Standard) {payload : Cbor} {a : α} (ha : p.ofCbor payload = .ok a) :
    ∃ v, p.toCbor a = .ok v := by
  cases h with
  | oid =>
    cases payload with
    | bytes b =>
      have hread : Oid.ofBer b = .ok a := Oid.of_lift ha
      refine ⟨.bytes b, ?_⟩
      show Oid.lift (a.toBer.map Cbor.bytes) = _
      rw [Oid.toBer_of_ofBer hread]
      rfl
    | _ => cases ha
  | _ => exact ⟨_, rfl⟩

end PayloadType.Standard

namespace FieldCodec

variable {T : Type} [TypeChoice T] {g : Catalog T} {f : Format} {v : Raw f} {x : T}

/-- A value of a standard payload type that was read is written again, under the same name and tag,
and read as itself.  The name tells the payload type, so it was this one that read the value. -/
theorem decodeChoice_again {α : Type} {p : PayloadType α} {wrap : α → T} (hp : p.Standard)
    (hshown : p.ShownBy wrap) (hb : g.Builds p wrap) (hcoherent : g.Coherent)
    (hpayloads : g.Payloads) (h : decodeChoice g f v = .ok x)
    (hname : TypeChoice.typeName x = p.typeName) :
    ∃ v', encodeChoice x f = .ok v' ∧
      (∃ source, f.IsChoice (TypeChoice.typeName x) (TypeChoice.tag x) source v') ∧
      decodeChoice g f v' = .ok x := by
  obtain ⟨β, q, wrap', b, source, hshown', hb', hform, hinput, hx⟩ :=
    (decodeChoice_eq_ok_iff hcoherent hpayloads).1 h
  have hq : q.typeName = p.typeName := by
    rw [← hname, ← hx]
    unfold TypeChoice.typeName
    rw [hshown' b]
    rfl
  have hmap := hb'.map_ofInput_eq hb hq source
  rw [hinput] at hmap
  obtain ⟨a, ha, hax⟩ := exists_of_map_eq_ok hmap.symm
  obtain rfl : wrap a = x := hax.trans hx
  have hholds : Holds p wrap a (wrap a) := ⟨rfl, hshown a, hp.lawful, hp.named⟩
  obtain ⟨hparse, hcheck⟩ := (PayloadType.ofInput_eq_ok_iff hform.source_ne_empty).1 ha
  have hvalid : TypeChoice.check (wrap a) = .ok () := hholds.check_eq.trans hcheck
  have hread : ∃ v', encodeChoice (wrap a) f = .ok v' ∧ decodeChoice g f v' = .ok (wrap a) := by
    cases f with
    | json => exact hholds.json hb hvalid
    | cbor =>
      obtain ⟨payload, -, rfl⟩ := hform
      obtain ⟨item, hitem⟩ := hp.exists_toCbor hparse
      have henc : encodeChoice (wrap a) .cbor = .ok (.tag p.tag item) := by
        rw [hholds.encodeChoice_cbor, hitem]
        rfl
      exact ⟨_, henc, hholds.cbor hb hvalid henc⟩
  obtain ⟨v', henc, hread⟩ := hread
  exact ⟨v', henc, (check_of_decodeChoice hcoherent hpayloads hread).2.2, hread⟩

/-! ## Decoding is exact -/

/-- In a catalog of payload types, registered in any way, a raw value is read as a choice exactly if
it has the form of one, its tag or its name is registered, and the payload type registered there
accepts the payload; without a tag, and without a name or with an empty one, it is refused.  What
was read is valid and reports the name and the tag that it was read under.  If its payload type is a
standard one, it is written in the same format again, under the same tag or name, and read as the
same value. -/
theorem choice_decoding_exact (calls : List (CatalogCall T)) (hcalls : ∀ c ∈ calls, c.OfPayload)
    (f : Format) (v : Raw f) :
    let g := Catalog.after calls
    (∀ x, decodeChoice g f v = .ok x ↔
      ∃ (α : Type) (p : PayloadType α) (wrap : α → T) (a : α) (source : PayloadSource),
        p.ShownBy wrap ∧ g.Builds p wrap ∧ f.IsChoice p.typeName p.tag source v ∧
          p.ofInput source = .ok a ∧ wrap a = x) ∧
    (f.IsUntyped v → decodeChoice g f v = .error (.choice (.untyped (TypeChoice.family T)))) ∧
    ∀ x, decodeChoice g f v = .ok x →
      (TypeChoice.check x = .ok () ∧ g.tagOf? (TypeChoice.typeName x) = some (TypeChoice.tag x) ∧
        ∃ source, f.IsChoice (TypeChoice.typeName x) (TypeChoice.tag x) source v) ∧
      ∀ {α : Type} (p : PayloadType α) (wrap : α → T), p.Standard → p.ShownBy wrap →
        g.Builds p wrap → TypeChoice.typeName x = p.typeName →
        ∃ v', encodeChoice x f = .ok v' ∧
          (∃ source, f.IsChoice (TypeChoice.typeName x) (TypeChoice.tag x) source v') ∧
          decodeChoice g f v' = .ok x := by
  intro g
  obtain ⟨hcoherent, hpayloads⟩ := Catalog.Payloads.after hcalls
  refine ⟨fun x => decodeChoice_eq_ok_iff hcoherent hpayloads, decodeChoice_of_isUntyped,
    fun x h => ⟨check_of_decodeChoice hcoherent hpayloads h, ?_⟩⟩
  intro α p wrap hp hshown hb hname
  exact decodeChoice_again hp hshown hb hcoherent hpayloads h hname

/-- Integers as class identifiers, beside serial numbers of a vendor; a second registration of the
integers fails. -/
def integerCalls : List (CatalogCall ClassId) :=
  [.registerPayload TaggedInt.payload ClassId.int, .registerForeign serialPayload,
    .registerPayload TaggedInt.payload ClassId.int]

/-- An integer that is spelled with a sign and leading zeros is read, and written without them. -/
theorem choice_decoding_exact_integer :
    (∀ c ∈ integerCalls, c.OfPayload) ∧
      ∃ v, decodeChoice (Catalog.after integerCalls) .json
          (.object [("value", .string "+007"), ("type", .string "int")]) = .ok (.int ⟨7⟩) ∧
        encodeChoice (ClassId.int ⟨7⟩) .json = .ok v ∧
        decodeChoice (Catalog.after integerCalls) .json v = .ok (.int ⟨7⟩) := by
  have hcalls : ∀ c ∈ integerCalls, c.OfPayload := by
    intro c hc
    simp only [integerCalls, List.mem_cons, List.not_mem_nil, or_false] at hc
    rcases hc with rfl | rfl | rfl <;> exact fun _ => rfl
  obtain ⟨hiff, -, hread⟩ := choice_decoding_exact integerCalls hcalls .json
    (.object [("value", .string "+007"), ("type", .string "int")])
  have hbuilds : (Catalog.after integerCalls).Builds TaggedInt.payload ClassId.int := ⟨rfl, rfl⟩
  have hdecode := (hiff (.int ⟨7⟩)).2 ⟨_, TaggedInt.payload, ClassId.int, ⟨7⟩,
    .json (.string "+007"), fun _ => rfl, hbuilds, ⟨_, rfl, by decide, rfl, by decide, rfl⟩, rfl,
    rfl⟩
  obtain ⟨v, hv, -, hagain⟩ := (hread _ hdecode).2 TaggedInt.payload ClassId.int .int
    (fun _ => rfl) hbuilds rfl
  exact ⟨hcalls, v, hdecode, hv, hagain⟩

end FieldCodec

end Rim
