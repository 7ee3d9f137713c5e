import Rim.Proofs.Record.Untagged
/-!
# Where a document identifier comes from

A document identifier is made of a text or of a UUID, or it is read under a field in either format.
All of these but one hold a text that spells a UUID as that UUID.  The exception is the binary form,
where the raw value tells texts from UUIDs: a text is kept as a text, whatever it spells.

An identifier is read back from the binary form as it was, but the text form has no way to say that
a text spells a UUID and is none.  So an identifier moves through the text form unchanged exactly if
it does not come from that exception.

## Main definitions

* `TagId.Origin`, `TagId.Origin.result`: where an identifier comes from, and which one comes of it.
* `TagId.Origin.SpellsUuid`: the exception.
* `TagId.Returns`, `TagId.MovesBack`: identifiers that are read back, and that move to the text form
  and back.

## Main results

* `FieldCodec.tagId_cbor_eq_ok_iff`, `FieldCodec.tagId_json_eq_ok_iff`: what is read, and as what.
* `TagId.Origin.isMisheld_iff`: one origin gives identifiers that are not held as they should be.
* `TagId.Origin.one_form_iff`: only what comes from it has more than one form.
-/

namespace Rim

/-! ## What is read as an identifier -/

theorem Uuid.ofBytes_eq_ok_iff {b : List UInt8} {u : Uuid} : ofBytes b = .ok u ↔ b = u.bytes := by
  constructor
  · intro h
    unfold ofBytes at h
    split_ifs at h
    obtain rfl := Except.ok.inj h
    rfl
  · rintro rfl
    exact ofBytes_bytes u

namespace FieldCodec

variable {cx : Context} {id : TagId}

/-- In the binary form sixteen bytes are a UUID, and a text is itself.  Bytes that are no UUID are
not read as a text either, though a plain text may be given as bytes. -/
theorem tagId_cbor_eq_ok_iff {v : Cbor} :
    tagId.decode .cbor cx v = .ok id ↔
      (∃ u : Uuid, v = .bytes u.bytes ∧ id = .uuid u) ∨ ∃ s, v = .text s ∧ id = .text s := by
  constructor
  · intro h
    cases v with
    | bytes b =>
      obtain ⟨u, hu, rfl⟩ := exists_of_map_eq_ok h
      have hbytes := Uuid.lift_eq_ok_iff.1 (Coded.ofChoice_eq_ok_iff.1 hu)
      exact .inl ⟨u, congrArg Cbor.bytes (Uuid.ofBytes_eq_ok_iff.1 hbytes), rfl⟩
    | text s => exact .inr ⟨s, rfl, (Except.ok.inj h).symm⟩
    | _ => cases h
  · rintro (⟨u, rfl, rfl⟩ | ⟨s, rfl, rfl⟩)
    · have huuid : (TagId.uuid u).isMisheld = false := rfl
      exact (travels_tagId (n := 0) huuid).reads _ rfl
    · rfl

/-- In the text form a text is what it spells. -/
theorem tagId_json_eq_ok_iff {v : Json} :
    tagId.decode .json cx v = .ok id ↔ ∃ s, v = .string s ∧ id = .ofText s := by
  constructor
  · intro h
    obtain ⟨s, hs, rfl⟩ := exists_of_map_eq_ok h
    exact ⟨s, toText_json_eq_ok_iff.1 hs, rfl⟩
  · rintro ⟨s, rfl, rfl⟩
    rfl

end FieldCodec

namespace TagId

/-! ## Identifiers that keep their form -/

/-- An identifier is misheld if it is a text that spells a UUID. -/
theorem isMisheld_eq_true_iff {id : TagId} :
    id.isMisheld = true ↔ ∃ s u, id = .text s ∧ Uuid.parse s = .ok u := by
  cases id with
  | uuid u => simp [isMisheld]
  | text s => cases hparse : Uuid.parse s <;> simp [isMisheld, hparse, Except.toBool]

theorem ofText_of_parse {s : String} {u : Uuid} (h : Uuid.parse s = .ok u) :
    ofText s = .uuid u := by
  unfold ofText
  rw [h]

/-- An identifier is written in a format and read back as the same. -/
def Returns (f : Format) (id : TagId) : Prop :=
  ∃ v, FieldCodec.tagId.encode f id = .ok v ∧ ∀ cx, FieldCodec.tagId.decode f cx v = .ok id

/-- An identifier of a binary document is written as text, read from that, and written as in the
binary document. -/
def MovesBack (id : TagId) : Prop :=
  ∃ v w, FieldCodec.tagId.encode .cbor id = .ok v ∧ FieldCodec.tagId.encode .json id = .ok w ∧
    ∀ cx, ∃ id', FieldCodec.tagId.decode .json cx w = .ok id' ∧
      FieldCodec.tagId.encode .cbor id' = .ok v

theorem exists_encode (f : Format) (id : TagId) : ∃ v, FieldCodec.tagId.encode f id = .ok v := by
  cases id with
  | text s => exact ⟨_, rfl⟩
  | uuid u => cases f <;> exact ⟨_, rfl⟩

/-- In the binary form every identifier comes back as it was. -/
theorem returns_cbor (id : TagId) : id.Returns .cbor := by
  cases id with
  | text s => exact ⟨.text s, rfl, fun _ => rfl⟩
  | uuid u =>
    refine ⟨.bytes u.bytes, rfl, fun cx => ?_⟩
    exact FieldCodec.tagId_cbor_eq_ok_iff.2 (.inl ⟨u, rfl, rfl⟩)

/-- In the text form an identifier comes back exactly if it is held as it should be. -/
theorem returns_json_iff {id : TagId} : id.Returns .json ↔ id.isMisheld = false := by
  constructor
  · rintro ⟨v, -, hread⟩
    obtain ⟨s, -, rfl⟩ := FieldCodec.tagId_json_eq_ok_iff.1 (hread ⟨.standard, none⟩)
    exact isMisheld_ofText s
  · intro h
    obtain ⟨v, hv⟩ := exists_encode .json id
    exact ⟨v, hv, fun cx => (FieldCodec.travels_tagId (n := 0) h).reads v hv⟩

theorem movesBack_iff {id : TagId} : id.MovesBack ↔ id.isMisheld = false := by
  constructor
  · rintro ⟨v, w, hv, hw, hback⟩
    obtain ⟨id', hread, hv'⟩ := hback ⟨.standard, none⟩
    rw [← Bool.not_eq_true]
    intro hheld
    obtain ⟨s, u, rfl, hparse⟩ := isMisheld_eq_true_iff.1 hheld
    obtain rfl := Except.ok.inj hw
    obtain ⟨s', hs', rfl⟩ := FieldCodec.tagId_json_eq_ok_iff.1 hread
    obtain rfl := Json.string.inj hs'
    rw [ofText_of_parse hparse, ← hv] at hv'
    cases hv'
  · intro h
    obtain ⟨v, hv⟩ := exists_encode .cbor id
    obtain ⟨w, hw, hread⟩ := returns_json_iff.2 h
    exact ⟨v, w, hv, hw, fun cx => ⟨id, hread cx, hv⟩⟩

/-! ## Origins -/

/-- Where an identifier comes from: from a text or a UUID, or from a raw value of a document. -/
inductive Origin where
  | text (s : String)
  | uuid (u : Uuid)
  | raw (f : Format) (v : Raw f)

namespace Origin

/-- The identifier that comes of it, if any. -/
def result (cx : Context) : Origin → Coded TagId
  | text s => .ok (.ofText s)
  | uuid u => .ok (.uuid u)
  | raw f v => FieldCodec.tagId.decode f cx v

/-- A text of a binary document that spells a UUID. -/
def SpellsUuid : Origin → Prop
  | raw .cbor (.text s) => ∃ u, Uuid.parse s = .ok u
  | _ => False

variable {cx : Context} {o : Origin} {id : TagId}

theorem isMisheld_iff (h : o.result cx = .ok id) : id.isMisheld = true ↔ o.SpellsUuid := by
  cases o with
  | text s =>
    obtain rfl := Except.ok.inj h
    simp [SpellsUuid]
  | uuid u =>
    obtain rfl := Except.ok.inj h
    simp [SpellsUuid, isMisheld]
  | raw f v =>
    cases f with
    | cbor =>
      obtain ⟨u, rfl, rfl⟩ | ⟨s, rfl, rfl⟩ := FieldCodec.tagId_cbor_eq_ok_iff.1 h
      · simp [SpellsUuid, isMisheld]
      · simp [SpellsUuid, isMisheld_eq_true_iff]
    | json =>
      obtain ⟨s, rfl, rfl⟩ := FieldCodec.tagId_json_eq_ok_iff.1 h
      simp [SpellsUuid]

/-- An identifier that is made of a text or a UUID, or read in either format, is not text that
spells a UUID, is read back from both formats, and moves from the binary form to the text form and
back, exactly if it was not read from a text of the binary form that spells a UUID.  From the binary
form it is read back in any case. -/
theorem one_form_iff (h : o.result cx = .ok id) :
    (id.isMisheld = false ↔ ¬ o.SpellsUuid) ∧ id.Returns .cbor ∧
      (id.Returns .json ↔ ¬ o.SpellsUuid) ∧ (id.MovesBack ↔ ¬ o.SpellsUuid) := by
  have hheld : id.isMisheld = false ↔ ¬ o.SpellsUuid := by
    rw [← isMisheld_iff h, Bool.not_eq_true]
  exact ⟨hheld, returns_cbor id, returns_json_iff.trans hheld, movesBack_iff.trans hheld⟩

/-- A UUID in upper case, read from the text form. -/
theorem one_form_upper_case :
    ∃ u, (raw .json (.string "31FB5ABF-023E-4992-AA4E-95F9C1503BFA")).result ⟨.standard, none⟩ =
        .ok (.uuid u) ∧ isMisheld (.uuid u) = false ∧ Returns .json (.uuid u) ∧
      MovesBack (.uuid u) := by
  have hresult : (raw .json (.string "31FB5ABF-023E-4992-AA4E-95F9C1503BFA")).result
      ⟨.standard, none⟩ = .ok (.uuid ⟨[0x31, 0xfb, 0x5a, 0xbf, 0x02, 0x3e, 0x49, 0x92, 0xaa, 0x4e,
        0x95, 0xf9, 0xc1, 0x50, 0x3b, 0xfa], rfl⟩) := by decide +kernel
  obtain ⟨hheld, -, hreturns, hmoves⟩ := one_form_iff hresult
  exact ⟨_, hresult, hheld.2 id, hreturns.2 id, hmoves.2 id⟩

/-- The same UUID, spelled in a text of the binary form, is kept as a text, and comes back from the
text form as another identifier. -/
theorem one_form_binary_text :
    (raw .cbor (.text "31fb5abf-023e-4992-aa4e-95f9c1503bfa")).result ⟨.standard, none⟩ =
        .ok (.text "31fb5abf-023e-4992-aa4e-95f9c1503bfa") ∧
      isMisheld (.text "31fb5abf-023e-4992-aa4e-95f9c1503bfa") = true ∧
      ¬ Returns .json (.text "31fb5abf-023e-4992-aa4e-95f9c1503bfa") ∧
      ¬ MovesBack (.text "31fb5abf-023e-4992-aa4e-95f9c1503bfa") := by
  have hheld : isMisheld (.text "31fb5abf-023e-4992-aa4e-95f9c1503bfa") = true := by
    decide +kernel
  refine ⟨rfl, hheld, fun h => ?_, fun h => ?_⟩
  · exact Bool.noConfusion (hheld.symm.trans (returns_json_iff.1 h))
  · exact Bool.noConfusion (hheld.symm.trans (movesBack_iff.1 h))

end Origin

end TagId

end Rim
