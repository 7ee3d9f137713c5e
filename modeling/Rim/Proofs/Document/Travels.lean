import Rim.Proofs.Record.Extended
/-!
# Records of documents travel

Every record of a document travels as its settled form, if it is valid, holds own variants only and
each of its slots holds the hook of its position with fields that travel.  What decoding would
refuse is what validation refuses as well: choices that do not pass their check, text identifiers
that spell a UUID, and relations that are not listed.

## Main results

* `EntityOf.travels`, `Environment.travels`, `Mval.travels`, `Triples.travels` and their like: the
  records of documents.
* `Comid.decodeAttached_encode`, `Corim.decodeAttached_encode`: documents.
-/

namespace Rim

open FieldCodec Member RecordShape

/-! ## Schemas

Every schema tells its fields apart, and those of triples have the positions from zero on. -/

/-- A record without embedded ones is sound if its schema passes its check. -/
theorem RecordShape.sound_flat {R : Type} {entity : String} {layout : Layout}
    {members : List (Member R)}
    (h : (RecordShape.flat entity layout members).schema.check = .ok ()) :
    (RecordShape.flat entity layout members).Sound where
  check := h
  fields := by
    show (members.map (·.spec)).Perm (Schema.flat entity layout (members.map (·.spec))).allFields
    rw [Schema.allFields_flat]

/-- The schema of an array passes its check if its fields are listed by position. -/
theorem Schema.check_array {entity : String} {fields : List FieldSpec}
    (hclash : Schema.firstClash? entity [] fields = none)
    (hsorted : fields.Pairwise fun a b => decide (a.key.toNat ≤ b.key.toNat) = true)
    (hgap : Schema.firstGap? entity 0 fields = none) :
    (Schema.flat entity .array fields).check = .ok () := by
  have hbyKey : Schema.byKey fields = fields := List.mergeSort_of_pairwise hsorted
  have hentity : (Schema.flat entity .array fields).entity = entity := rfl
  have hlayout : (Schema.flat entity .array fields).layout = .array := rfl
  unfold Schema.check
  rw [Schema.allFields_flat, hentity, hclash, hlayout, hbyKey]
  simp only [hgap]

/-- Records of an entity type embed an identity and write it before their roles. -/
theorem sound_identity_roles {E ρ : Type} [OpenCode ρ] {entity : String} {roles : E → List ρ}
    {setRoles : List ρ → E → E} {identity : E → EntityIdentity}
    {setIdentity : EntityIdentity → E → E} :
    (RecordShape.mk (.mk entity .map [.required "roles" 2] [identityShape.schema])
      (identityShape.members.map (·.embedded identity setIdentity) ++
        [.required (.required "roles" 2) (.list (.code ρ)) roles setRoles])).Sound where
  check := rfl
  fields := by
    show ([_, _] ++ [_]).Perm _
    exact List.perm_append_comm

theorem sound_valueTripleShape : valueTripleShape.Sound :=
  sound_flat (Schema.check_array rfl (by decide) rfl)

theorem sound_keyTripleShape : keyTripleShape.Sound :=
  sound_flat (Schema.check_array rfl (by decide) rfl)

theorem sound_flagsShape : flagsShape.Sound := sound_flat rfl

/-! ## Fresh records

A blank record has the hook of its position attached before it takes its fields.  Where it holds no
other record with a slot yet, this is all that is attached. -/

section Fresh

variable {cx : Context}

theorem Context.attach_of_hookFor {E : Type} [Hookable E] [Attachable E] {e : E}
    {slot : Slot (Hookable.kind E).Body} (hempty : Hookable.slot e = none)
    (hself : Hookable.withSlot e none = e)
    (hown : ∀ h : HookSource, Attachable.attach h e = h.attachOwn e)
    (hfor : cx.hookFor (Hookable.kind E) = .ok slot) :
    cx.attach e = .ok (Hookable.withSlot e slot) := by
  unfold hookFor at hfor
  unfold attach
  cases hhooks : cx.hooks with
  | none =>
    rw [hhooks] at hfor
    obtain rfl := Except.ok.inj hfor
    exact congrArg Except.ok hself.symm
  | some h =>
    rw [hhooks] at hfor
    dsimp only
    rw [hown, HookSource.attachOwn_of_hookFor hempty hfor]
    rfl

theorem Mval.attach_default (h : HookSource) :
    Mval.attach h default = h.attachOwn (default : Mval) := by
  unfold Mval.attach HookSource.attachOwn HookSource.attach
  cases h.bundle.attachTo .mval (h.pointFor .mval) none <;> rfl

theorem Triples.attach_default (h : HookSource) :
    Triples.attach h default = h.attachOwn (default : Triples) := by
  unfold Triples.attach HookSource.attachOwn HookSource.attach
  cases h.bundle.attachTo .triples (h.pointFor .triples) none <;> rfl

theorem Attached.toExcept_map {P E : Type} (g : P → E) (a : Attached P) :
    (a.map g).toExcept = a.toExcept.map g := by
  obtain ⟨p, _ | refusal⟩ := a <;> rfl

theorem Measurement.attach_of_hookFor {slot : Slot MvalBody} (hfor : cx.hookFor .mval = .ok slot) :
    cx.attach (default : Measurement) = .ok { value := { hook := slot } } := by
  have hvalue : cx.attach (default : Mval) = .ok { hook := slot } :=
    Context.attach_of_hookFor rfl rfl Mval.attach_default hfor
  unfold Context.attach at hvalue ⊢
  cases hhooks : cx.hooks with
  | none =>
    rw [hhooks] at hvalue
    obtain rfl := congrArg Mval.hook (Except.ok.inj hvalue)
    rfl
  | some h =>
    rw [hhooks] at hvalue
    show ((Mval.attach h default).map _).toExcept = _
    rw [Attached.toExcept_map, show (Mval.attach h default).toExcept = .ok _ from hvalue]
    rfl

theorem ValueTriple.attach_default (cx : Context) :
    cx.attach (default : ValueTriple) = .ok default := by
  unfold Context.attach
  cases cx.hooks <;> rfl

/-- A blank module identifier has its own hook attached, and that of its triples. -/
theorem Comid.attach_default {h : HookSource} {slot : Slot ComidBody} {triples : Slot TriplesBody}
    (hown : h.bundle.hookFor .comid (h.pointFor .comid) = .ok slot)
    (htriples : h.bundle.hookFor .triples (h.pointFor .triples) = .ok triples) :
    Comid.attach h default = ⟨{ triples := { hook := triples }, hook := slot }, none⟩ := by
  have hslot : h.attachOwn (default : Comid) = ⟨{ hook := slot }, none⟩ :=
    HookSource.attachOwn_of_hookFor rfl hown
  have htriplesSlot : h.attachOwn (default : Triples) = ⟨{ hook := triples }, none⟩ :=
    HookSource.attachOwn_of_hookFor rfl htriples
  unfold Comid.attach
  rw [hslot, Attached.andThen_of_none]
  show Attached.andThen (E := Comid) ⟨{ hook := slot }, none⟩ _ = _
  rw [Attached.andThen_of_none]
  show (Triples.attach h default).map _ = _
  rw [Triples.attach_default, htriplesSlot]
  rfl

theorem Corim.attach_default (h : HookSource) :
    Corim.attach h default = h.attachOwn (default : Corim) := by
  unfold Corim.attach HookSource.attachOwn HookSource.attach
  cases h.bundle.attachTo .corim (h.pointFor .corim) none <;> rfl

end Fresh

variable {f : Format} {cx : Context} {n : Nat}

/-! ## Entities

The identity is embedded, so its fields travel as those of the entity. -/

/-- An entity loses an empty registration URI, and its roles become listed ones. -/
theorem travelAll_identity_roles {E ρ : Type} [OpenCode ρ] [OpenCode.Lawful ρ]
    {roles : E → List ρ} {setRoles : List ρ → E → E} {identity : E → EntityIdentity}
    {setIdentity : EntityIdentity → E → E} {e blank result : E}
    (h : setRoles ((roles e).map OpenCode.listed)
      (setIdentity { identity (setIdentity { identity blank with name := (identity e).name } blank)
          with regId := (identity e).regId.filter fun s => !s.isEmpty }
        (setIdentity { identity blank with name := (identity e).name } blank)) = result) :
    TravelAll f cx (n + 1) e (identityShape.members.map (·.embedded identity setIdentity) ++
      [.required (.required "roles" 2) (.list (.code ρ)) roles setRoles]) blank result := by
  refine .cons (.embedded (travels_required rfl (travels_string _))) ?_
  refine .cons (.embedded (travels_filtered rfl fun s _ => travels_string s)) ?_
  refine .cons (travels_required rfl (travels_list OpenCode.listed fun c _ => travels_code c)) ?_
  exact .nil h

/-- The fields that an entity has of its own, whatever hook is read beside them. -/
theorem EntityOf.travels_own (e : Entity) (slot : Slot EntityBody) :
    entityShape.Travels f cx (n + 1) e { hook := slot } { e.normalized with hook := slot } := by
  refine ⟨sound_identity_roles, travelAll_identity_roles ?_⟩
  obtain ⟨body, hook⟩ := e
  rfl

/-- An entity travels if its slot does. -/
theorem EntityOf.travels {e : Entity}
    (hslot : Slot.Travels (k := .comidEntity) e.hook f cx (n + 1)) :
    FieldCodec.entity.Travels f cx (n + 2) e e.settled := by
  obtain ⟨slot, hfor, hsame⟩ := hslot.serves
  exact (e.travels_own slot).extended (Context.attach_of_hookFor rfl rfl (fun _ => rfl) hfor) rfl
    rfl hslot hsame rfl

theorem CorimEntity.travels {e : CorimEntity}
    (hslot : Slot.Travels (k := .corimEntity) e.hook f cx (n + 1)) :
    (corimEntityShape.extended default).Travels f cx (n + 2) e e.settled := by
  obtain ⟨slot, hfor, hsame⟩ := hslot.serves
  have hmembers : TravelAll f cx (n + 1) e corimEntityShape.members { hook := slot }
      { e.normalized with hook := slot } := by
    apply travelAll_identity_roles
    obtain ⟨body, hook⟩ := e
    rfl
  have hshape : corimEntityShape.Travels f cx (n + 1) e _ _ := ⟨sound_identity_roles, hmembers⟩
  exact hshape.extended (Context.attach_of_hookFor rfl rfl (fun _ => rfl) hfor) rfl rfl hslot hsame
    rfl

/-! ## Tags -/

/-- An identifier travels unless it is held in the wrong way. -/
theorem TagId.travels {id : TagId} (hvalid : Validate.validate id = .ok ()) :
    FieldCodec.tagId.Travels f cx n id id :=
  travels_tagId (TagId.validate_eq_ok_iff.1 hvalid).2

/-- The identity of a tag travels if its identifier does. -/
theorem TagIdentity.travels {t : TagIdentity} (hvalid : Validate.validate t = .ok ()) :
    (tagIdentityShape.codec default).Travels f cx (n + 1) t t := by
  have hid := TagIdentity.validate_eq_ok_iff.1 hvalid
  refine Travels.codec ⟨sound_flat rfl, ?_⟩
  refine .cons (travels_required rfl (TagId.travels hid)) ?_
  refine .cons (travels_kept rfl (fun _ => rfl) fun k _ => travels_uint64 k) ?_
  exact .nil rfl

theorem TagRel.listed_of_validity {rel : TagRel} (hvalid : rel.validity = .ok ()) :
    OpenCode.listed rel = rel := by
  cases rel with
  | other code => cases hvalid
  | _ => rfl

/-- A linked tag travels if it is valid.  A relation outside the list is not valid, so its number
leads back to it. -/
theorem LinkedTag.travels {t : LinkedTag} (hvalid : Validate.validate t = .ok ()) :
    (linkedTagShape.codec default).Travels f cx (n + 1) t t := by
  obtain ⟨htarget, hrel⟩ := LinkedTag.validate_eq_ok_iff.1 hvalid
  have hcode : (FieldCodec.code TagRel).Travels f cx n t.rel t.rel := by
    have hlisted : (FieldCodec.code TagRel).Travels f cx n t.rel (OpenCode.listed t.rel) :=
      travels_code t.rel
    rwa [TagRel.listed_of_validity hrel] at hlisted
  refine Travels.codec ⟨sound_flat rfl, ?_⟩
  refine .cons (travels_required rfl (TagId.travels htarget)) ?_
  refine .cons (travels_required rfl hcode) ?_
  exact .nil rfl

/-! ## Environments -/

/-- A valid choice of a family with an own variant travels as itself. -/
theorem TypeChoice.travels (hcx : cx.catalogs.Includes .standard) (family : Family)
    {x : family.Value} (hown : TypeChoice.IsOwn x) (hvalid : TypeChoice.validity x = .ok ()) :
    (choice family).Travels f cx (n + 2) x x :=
  travels_choice hcx hown (TypeChoice.validity_eq_ok_iff.1 hvalid)

/-- A class of own variants comes back in its normal form. -/
theorem EnvClass.travels (hcx : cx.catalogs.Includes .standard) {c : EnvClass} (hown : c.IsOwn)
    (hvalid : Validate.validate c = .ok ()) :
    (envClassShape.codec default).Travels f cx (n + 3) c c.normalized := by
  obtain ⟨-, hid⟩ := EnvClass.validate_eq_ok_iff.1 hvalid
  refine Travels.codec ⟨sound_flat rfl, ?_⟩
  refine .cons (travels_kept rfl (fun _ => rfl) fun x hx =>
    TypeChoice.travels hcx .classId (hown x hx) (hid x hx)) ?_
  refine .cons (travels_filtered rfl fun s _ => travels_string s) ?_
  refine .cons (travels_filtered rfl fun s _ => travels_string s) ?_
  refine .cons (travels_kept rfl (fun _ => rfl) fun k _ => travels_uint64 k) ?_
  refine .cons (travels_kept rfl (fun _ => rfl) fun k _ => travels_uint64 k) ?_
  exact .nil rfl

theorem Environment.travels (hcx : cx.catalogs.Includes .standard) {e : Environment}
    (hown : e.IsOwn) (hvalid : Validate.validate e = .ok ()) :
    (environmentShape.codec default).Travels f cx (n + 4) e e.normalized := by
  obtain ⟨-, hclass, hinstance, hgroup⟩ := Environment.validate_eq_ok_iff.1 hvalid
  obtain ⟨hownClass, hownInstance, hownGroup⟩ := hown
  refine Travels.codec ⟨sound_flat rfl, ?_⟩
  refine .cons (travels_mapped EnvClass.normalized rfl (fun _ => rfl) fun c hc =>
    EnvClass.travels hcx (hownClass c hc) (hclass c hc)) ?_
  refine .cons (travels_kept rfl (fun _ => rfl) fun x hx =>
    TypeChoice.travels hcx .instanceId (hownInstance x hx) (hinstance x hx)) ?_
  refine .cons (travels_kept rfl (fun _ => rfl) fun x hx =>
    TypeChoice.travels hcx .groupId (hownGroup x hx) (hgroup x hx)) ?_
  exact .nil rfl

/-! ## Measured values

Reading sets the built-in flags one by one, which makes the whole map again. -/

/-- Flags that agree with a body are still those of the body after some of its flags are read. -/
theorem FlagsMap.foldl_withFlag (m acc : FlagsMap) (l : List (Fin 10)) :
    let result : FlagsMap := l.foldl
      (fun acc i => { acc with toFlagsBody := acc.withFlag i (m.flag i) }) acc
    result.hook = acc.hook ∧ ∀ j, (j ∈ l ∨ acc.flag j = m.flag j) → result.flag j = m.flag j := by
  induction l generalizing acc with
  | nil => simp
  | cons i l ih =>
    obtain ⟨hhook, hflag⟩ := ih { acc with toFlagsBody := acc.withFlag i (m.flag i) }
    refine ⟨hhook, ?_⟩
    intro j hj
    rw [List.foldl_cons]
    apply hflag j
    by_cases hij : i = j
    · right
      rw [FlagsBody.flag_withFlag, if_pos hij, hij]
    · rw [FlagsBody.flag_withFlag, if_neg hij]
      rcases hj with hj | hj
      · exact .inl ((List.mem_cons.1 hj).resolve_left fun h => hij h.symm)
      · exact .inr hj

/-- Flags that are read one by one are all read. -/
theorem FlagsMap.foldl_withFlag_finRange (m : FlagsMap) (slot : Slot FlagsBody) :
    (List.finRange 10).foldl
      (fun acc i => { acc with toFlagsBody := acc.withFlag i (m.flag i) }) { hook := slot } =
      { m with hook := slot } := by
  obtain ⟨hhook, hflag⟩ := FlagsMap.foldl_withFlag m { hook := slot } (List.finRange 10)
  generalize (List.finRange 10).foldl (fun acc i =>
    ({ acc with toFlagsBody := acc.withFlag i (m.flag i) } : FlagsMap)) { hook := slot } = result
    at hhook hflag ⊢
  obtain ⟨⟨values⟩, hook⟩ := result
  obtain ⟨⟨values'⟩, hook'⟩ := m
  obtain rfl : hook = slot := hhook
  have hvalues : values = values' := by
    apply Vector.ext
    intro i hi
    exact hflag ⟨i, hi⟩ (.inl (List.mem_finRange _))
  rw [hvalues]

/-- Flags travel if their slot does. -/
theorem FlagsMap.travels {m : FlagsMap} (hslot : Slot.Travels (k := .flags) m.hook f cx n) :
    (flagsShape.extended default).Travels f cx (n + 1) m m.settled := by
  obtain ⟨slot, hfor, hsame⟩ := hslot.serves
  have hmembers : TravelAll f cx n m ((List.finRange 10).map flagMember) { hook := slot } _ :=
    travelAll_map flagMember (List.finRange 10)
      (fun i _ => travels_kept rfl (fun _ => rfl) fun b _ => travels_bool b) { hook := slot }
  rw [FlagsMap.foldl_withFlag_finRange] at hmembers
  have hshape : flagsShape.Travels f cx n m _ _ := ⟨sound_flagsShape, hmembers⟩
  exact hshape.extended (Context.attach_of_hookFor rfl rfl (fun _ => rfl) hfor) rfl rfl hslot hsame
    rfl

/-- Measured values travel if their slot and that of their flags do. -/
theorem Mval.travels {v : Mval} (hslot : Slot.Travels (k := .mval) v.hook f cx (n + 2))
    (hflags : ∀ m ∈ v.flags, Slot.Travels (k := .flags) m.hook f cx n) :
    (mvalShape.extended default).Travels f cx (n + 3) v v.settled := by
  obtain ⟨slot, hfor, hsame⟩ := hslot.serves
  have hmembers : TravelAll f cx (n + 2) v mvalShape.members { hook := slot }
      { v.settled with hook := slot } := by
    refine .cons (Member.travels_items rfl (fun _ => rfl)
      (FieldCodec.travels_items fun d _ => travels_digest d)) ?_
    refine .cons (travels_mapped FlagsMap.settled rfl (fun _ => rfl) fun m hm =>
      (FlagsMap.travels (hflags m hm)).mono (by omega)) ?_
    refine .cons (travels_filtered rfl fun b _ => travels_bytes b) ?_
    refine .cons (travels_filtered rfl fun s _ => travels_string s) ?_
    refine .cons (travels_kept rfl (fun _ => rfl) fun u _ => travels_ueid u) ?_
    refine .cons (travels_kept rfl (fun _ => rfl) fun u _ => travels_uuid u) ?_
    refine .cons (travels_filtered rfl fun s _ => travels_string s) ?_
    exact .nil rfl
  have hshape : mvalShape.Travels f cx (n + 2) v _ _ := ⟨sound_flat rfl, hmembers⟩
  exact hshape.extended (Context.attach_of_hookFor rfl rfl Mval.attach_default hfor) rfl rfl hslot
    hsame rfl

theorem Measurement.travels (hcx : cx.catalogs.Includes .standard) {m : Measurement}
    (hown : m.IsOwn) (hslot : Slot.Travels (k := .mval) m.value.hook f cx (n + 2))
    (hflags : ∀ flags ∈ m.value.flags, Slot.Travels (k := .flags) flags.hook f cx n)
    (hvalid : Validate.validate m = .ok ()) :
    (measurementShape.holding default).Travels f cx (n + 4) m m.settled := by
  obtain ⟨hkey, -, hauthorized⟩ := Measurement.validate_eq_ok_iff.1 hvalid
  obtain ⟨hownKey, hownAuthorized⟩ := hown
  have hkeys : (FieldCodec.list (.choice .cryptoKey)).Travels f cx (n + 3) m.authorizedBy
      m.authorizedBy :=
    FieldCodec.travels_items fun x hx =>
      TypeChoice.travels hcx .cryptoKey (hownAuthorized x hx) (hauthorized x hx)
  obtain ⟨slot, hfor, -⟩ := hslot.serves
  refine Travels.holding (Measurement.attach_of_hookFor hfor) ⟨sound_flat rfl, ?_⟩
  refine .cons (travels_kept rfl (fun _ => rfl) fun x hx =>
    TypeChoice.travels hcx .mkey (hownKey x hx) (hkey x hx)) ?_
  refine .cons (travels_required rfl (Mval.travels hslot hflags)) ?_
  refine .cons (Member.travels_items rfl (fun _ => rfl) hkeys) ?_
  exact .nil rfl

/-! ## Triples -/

theorem ValueTriple.travels (hcx : cx.catalogs.Includes .standard) {t : ValueTriple}
    (hown : t.IsOwn) (hslots : t.EverySlot fun _ slot => slot.Travels f cx n)
    (hvalid : Validate.validate t = .ok ()) :
    (valueTripleShape.holding default).Travels f cx (n + 6) t t.settled := by
  obtain ⟨henvironment, -, hmeasurements⟩ := ValueTriple.validate_eq_ok_iff.1 hvalid
  refine Travels.holding (ValueTriple.attach_default cx) ⟨sound_valueTripleShape, ?_⟩
  refine .cons (travels_required rfl (Environment.travels hcx hown.1 henvironment)) ?_
  refine .cons (travels_required rfl (FieldCodec.travels_list Measurement.settled fun m hm =>
    Measurement.travels hcx (hown.2 m hm) ((hslots m hm).1.mono (by omega)) (hslots m hm).2
      (hmeasurements m hm))) ?_
  exact .nil rfl

/-- A triple of keys of own variants comes back in its normal form. -/
theorem KeyTriple.travels (hcx : cx.catalogs.Includes .standard) {t : KeyTriple} (hown : t.IsOwn)
    (hvalid : Validate.validate t = .ok ()) :
    (keyTripleShape.codec default).Travels f cx (n + 5) t t.normalized := by
  obtain ⟨henvironment, -, hkeys⟩ := KeyTriple.validate_eq_ok_iff.1 hvalid
  have hlist : (FieldCodec.list (.choice .cryptoKey)).Travels f cx (n + 4) t.verificationKeys
      t.verificationKeys :=
    FieldCodec.travels_items fun x hx =>
      TypeChoice.travels hcx .cryptoKey (hown.2 x hx) (hkeys x hx)
  refine Travels.codec ⟨sound_keyTripleShape, ?_⟩
  refine .cons (travels_required rfl (Environment.travels hcx hown.1 henvironment)) ?_
  refine .cons (travels_required rfl hlist) ?_
  exact .nil rfl

/-- Triples travel if all of their slots do.  Endorsed values are read under the stand-ins that
their slots are served by. -/
theorem Triples.travels (hcx : cx.catalogs.Includes .standard) {t : Triples} (hown : t.IsOwn)
    (hslots : t.EverySlot fun standIns _ slot => slot.Travels f (cx.withStandIns standIns) n)
    (hself : cx.withStandIns [] = cx) (hvalid : Validate.validate t = .ok ()) :
    (triplesShape.extended default).Travels f cx (n + 8) t t.settled := by
  obtain ⟨-, hreference, hendorsed, hidentity, hattester, -⟩ :=
    Triples.validate_eq_ok_iff.1 hvalid
  obtain ⟨hownReference, hownEndorsed, hownIdentity, hownAttester⟩ := hown
  obtain ⟨hslot, hslotsReference, hslotsEndorsed⟩ := hslots
  rw [hself] at hslot hslotsReference
  obtain ⟨slot, hfor, hsame⟩ := hslot.serves
  have hmembers : TravelAll f cx (n + 7) t triplesShape.members { hook := slot }
      { t.settled with hook := slot } := by
    refine .cons (Member.travels_list _ rfl (fun _ => rfl)
      (FieldCodec.travels_list ValueTriple.settled fun v hv =>
        ValueTriple.travels hcx (hownReference v hv) (hslotsReference v hv) (hreference v hv))) ?_
    have hcxEndorsed : (cx.withStandIns StandIn.endorsed).catalogs.Includes .standard := hcx
    refine .cons (Member.travels_list _ rfl (fun _ => rfl)
      (Travels.under (FieldCodec.travels_list ValueTriple.settled fun v hv =>
        ValueTriple.travels hcxEndorsed (hownEndorsed v hv) (hslotsEndorsed v hv)
          (hendorsed v hv)))) ?_
    refine .cons (Member.travels_list _ rfl (fun _ => rfl)
      (FieldCodec.travels_list KeyTriple.normalized fun k hk =>
        KeyTriple.travels hcx (hownIdentity k hk) (hidentity k hk))) ?_
    refine .cons (Member.travels_list _ rfl (fun _ => rfl)
      (FieldCodec.travels_list KeyTriple.normalized fun k hk =>
        KeyTriple.travels hcx (hownAttester k hk) (hattester k hk))) ?_
    exact .nil rfl
  have hshape : triplesShape.Travels f cx (n + 7) t _ _ := ⟨sound_flat rfl, hmembers⟩
  exact hshape.extended (Context.attach_of_hookFor rfl rfl Triples.attach_default hfor) rfl rfl
    (hslot.mono (by omega)) hsame rfl

/-! ## Documents

The root of a document has its own hook attached; the other records it holds when it is blank are
replaced by what is read. -/

/-- The fields of a valid module identifier of own variants travel if all of its slots do. -/
theorem Comid.travels (hcx : cx.catalogs.Includes .standard) {d : Comid} (hown : d.IsOwn)
    (hslots : d.EverySlot fun standIns _ slot => slot.Travels f (cx.withStandIns standIns) n)
    (hself : cx.withStandIns [] = cx) (hvalid : Validate.validate d = .ok ()) (blank : Comid) :
    comidShape.Travels f cx (n + 9) d blank { d.settled with hook := blank.hook } := by
  obtain ⟨hidentity, -, hlinked, htriples, -⟩ := Comid.validate_eq_ok_iff.1 hvalid
  obtain ⟨-, hentities, hslotsTriples⟩ := hslots
  rw [hself] at hentities
  have htags : (FieldCodec.list (linkedTagShape.codec default)).Travels f cx (n + 9) d.linkedTags
      d.linkedTags :=
    FieldCodec.travels_items fun t ht => LinkedTag.travels (hlinked t ht)
  refine ⟨sound_flat rfl, ?_⟩
  refine .cons (travels_filtered rfl fun s _ => travels_string s) ?_
  refine .cons (travels_required rfl (TagIdentity.travels hidentity)) ?_
  refine .cons (Member.travels_list _ rfl (fun _ => rfl)
    (FieldCodec.travels_list EntityOf.settled fun e he =>
      EntityOf.travels ((hentities e he).mono (by omega)))) ?_
  refine .cons (Member.travels_items rfl (fun _ => rfl) htags) ?_
  refine .cons (travels_required rfl
    ((Triples.travels hcx hown hslotsTriples hself htriples).mono (by omega))) ?_
  exact .nil rfl

/-- A module identifier is read, by a root with the same hook, as its settled form. -/
theorem Comid.decodeAttached_encode (hcx : cx.catalogs.Includes .standard) {d : Comid}
    (hown : d.IsOwn)
    (hslots : d.EverySlot fun standIns _ slot => slot.Travels f (cx.withStandIns standIns) n)
    (hself : cx.withStandIns [] = cx) (hvalid : Validate.validate d = .ok ()) {root : Comid}
    (hsame : Slot.SameHook root.hook d.hook) {v : Raw f}
    (hv : comidShape.encodeExtended f d = .ok v) :
    comidShape.decodeAttached f cx root v = .ok d.settled ∧ f.Plain (n + 10) v := by
  have hslot : Slot.Travels (k := .comid) d.hook f cx n := hself ▸ hslots.own
  exact (Comid.travels hcx hown hslots hself hvalid root).decodeAttached rfl rfl
    (hslot.mono (by omega)) hsame hv

/-- A manifest travels if its tags and its profile do. -/
theorem Corim.travels_of_choices {d : Corim}
    (htags : ∀ t ∈ d.tags, (choice .conciseTag).Travels f cx (n + 2) t t)
    (hprofile : ∀ p ∈ d.profile, (choice .profileId).Travels f cx (n + 3) p p)
    (hslots : d.EverySlot fun _ slot => slot.Travels f cx n)
    (hid : Validate.validate d.id = .ok ()) (blank : Corim) :
    corimShape.Travels f cx (n + 3) d blank { d.settled with hook := blank.hook } := by
  refine ⟨sound_flat rfl, ?_⟩
  refine .cons (travels_required rfl (TagId.travels hid)) ?_
  refine .cons (travels_required rfl (FieldCodec.travels_items htags)) ?_
  refine .cons (travels_kept rfl (fun _ => rfl) hprofile) ?_
  refine .cons (Member.travels_list _ rfl (fun _ => rfl)
    (FieldCodec.travels_list CorimEntity.settled fun e he =>
      CorimEntity.travels ((hslots.entities e he).mono (by omega)))) ?_
  exact .nil rfl

theorem Corim.travels (hcx : cx.catalogs.Includes .standard) {d : Corim} (hown : d.IsOwn)
    (hslots : d.EverySlot fun _ slot => slot.Travels f cx n)
    (hvalid : Validate.validate d = .ok ()) (blank : Corim) :
    corimShape.Travels f cx (n + 3) d blank { d.settled with hook := blank.hook } := by
  obtain ⟨hid, -, htags, hprofile, -⟩ := Corim.validate_eq_ok_iff.1 hvalid
  exact Corim.travels_of_choices
    (fun t ht => TypeChoice.travels hcx .conciseTag (hown.1 t ht) (htags t ht))
    (fun p hp => TypeChoice.travels hcx .profileId (hown.2 p hp) (hprofile p hp)) hslots hid blank

/-- A manifest is read, by a root with the same hook, as its settled form. -/
theorem Corim.decodeAttached_encode (hcx : cx.catalogs.Includes .standard) {d : Corim}
    (hown : d.IsOwn) (hslots : d.EverySlot fun _ slot => slot.Travels f cx n)
    (hvalid : Validate.validate d = .ok ()) {root : Corim}
    (hsame : Slot.SameHook root.hook d.hook) {v : Raw f}
    (hv : corimShape.encodeExtended f d = .ok v) :
    corimShape.decodeAttached f cx root v = .ok d.settled ∧ f.Plain (n + 4) v :=
  (Corim.travels hcx hown hslots hvalid root).decodeAttached rfl rfl
    (hslots.own.mono (by omega)) hsame hv

end Rim
