import Rim.Proofs.Choice.Plain
import Rim.Proofs.Record.Taking
import Rim.Record.Datum
/-!
# What travels through a document

A value travels under a codec as another one when whatever is written of the first is plain and is
read as the second, in one format and one context.  Plain values under a field travel as themselves,
codes as what their number stands for, lists item by item, and records field by field.

## Main definitions

* `FieldCodec.Travels`, `Member.Travels`, `RecordShape.Travels`: values, fields and records that
  travel.

## Main results

* `RecordShape.Travels.codec`, `RecordShape.Travels.holding`: records travel if their fields do.
-/

namespace Rim

/-! ## Values under a field -/

/-- What is written of `a` is plain, nesting at most `n` deep, and is read as `b`. -/
structure FieldCodec.Travels {α : Type} (c : FieldCodec α) (f : Format) (cx : Context) (n : Nat)
    (a b : α) : Prop where
  reads : c.Reads f cx a b
  plain : ∀ v, c.encode f a = .ok v → f.Plain n v

/-- A listed name leads back to its code, and so does the number of a code that has a name. -/
class OpenCode.Lawful (α : Type) [OpenCode α] : Prop where
  ofName?_name : ∀ (c : α) (name : String), OpenCode.name? c = some name →
    OpenCode.ofName? name = some c ∧ OpenCode.ofNumber (OpenCode.toNumber c) = c

instance : OpenCode.Lawful Role where
  ofName?_name c name h := by
    cases c with
    | other code => cases h
    | _ => obtain rfl := Option.some.inj h; exact ⟨rfl, rfl⟩

instance : OpenCode.Lawful CorimRole where
  ofName?_name c name h := by
    cases c with
    | other code => cases h
    | _ => obtain rfl := Option.some.inj h; exact ⟨rfl, rfl⟩

instance : OpenCode.Lawful TagRel where
  ofName?_name c name h := by
    cases c with
    | other code => cases h
    | _ => obtain rfl := Option.some.inj h; exact ⟨rfl, rfl⟩

namespace FieldCodec

variable {α : Type} {f : Format} {cx : Context} {n m : Nat}

/-- A value that travels at some depth does so at any greater one. -/
theorem Travels.mono {c : FieldCodec α} {a b : α} (h : c.Travels f cx n a b) (hm : n ≤ m) :
    c.Travels f cx m a b :=
  ⟨h.reads, fun v hv => (h.plain v hv).mono hm⟩

theorem toText_ofText (f : Format) (s : String) : f.toText (f.ofText s) = .ok s := by
  cases f <;> rfl

/-- Texts travel. -/
theorem travels_string (s : String) : string.Travels f cx n s s where
  reads v hv := by
    obtain rfl := Except.ok.inj hv
    exact toText_ofText f s
  plain v hv := by
    obtain rfl := Except.ok.inj hv
    cases f with
    | cbor => exact Cbor.Plain.text s
    | json => exact Json.Plain.string s

theorem toBytes_ofBytes (f : Format) (b : List UInt8) : f.toBytes (f.ofBytes b) = .ok b := by
  cases f with
  | cbor => rfl
  | json =>
    simp only [Format.ofBytes, Format.toBytes, Base64.decode?_encode]

theorem plain_ofBytes (f : Format) (b : List UInt8) : f.Plain n (f.ofBytes b) := by
  cases f with
  | cbor => exact Cbor.Plain.bytes b
  | json => exact Json.Plain.string _

/-- Bytes travel. -/
theorem travels_bytes (b : List UInt8) : bytes.Travels f cx n b b where
  reads v hv := by
    obtain rfl := Except.ok.inj hv
    exact toBytes_ofBytes f b
  plain v hv := by
    obtain rfl := Except.ok.inj hv
    exact plain_ofBytes f b

theorem travels_bool (b : Bool) : bool.Travels f cx n b b where
  reads v hv := by
    obtain rfl := Except.ok.inj hv
    cases f <;> rfl
  plain v hv := by
    obtain rfl := Except.ok.inj hv
    cases f with
    | cbor => exact Cbor.Plain.bool b
    | json => exact Json.Plain.bool b

theorem plain_number (f : Format) (k : UInt64) : f.Plain n (f.ofInt k.toNat) := by
  have hk := k.toNat_lt
  cases f with
  | cbor => exact Cbor.Plain.int (by omega) (by omega)
  | json => exact Json.Plain.int (by omega) (by omega)

theorem decode_number (f : Format) (cx : Context) (k : UInt64) :
    uint64.decode f cx (f.ofInt k.toNat) = .ok k := by
  have hbounds : 0 ≤ (k.toNat : Int) ∧ (k.toNat : Int) ≤ 18446744073709551615 := by
    have := k.toNat_lt
    omega
  have hint : Format.toInt 0 18446744073709551615 f (f.ofInt k.toNat) = .ok k.toNat := by
    cases f <;> exact if_pos hbounds
  show (Format.toInt 0 18446744073709551615 f (f.ofInt k.toNat)).map _ = _
  rw [hint]
  show Except.ok (UInt64.ofNat (k.toNat : Int).toNat) = _
  rw [Int.toNat_natCast, UInt64.ofNat_toNat]

/-- Unsigned integers travel. -/
theorem travels_uint64 (k : UInt64) : uint64.Travels f cx n k k where
  reads v hv := by
    obtain rfl := Except.ok.inj hv
    exact decode_number f cx k
  plain v hv := by
    obtain rfl := Except.ok.inj hv
    exact plain_number f k

/-- A code with a name is written as the name. -/
theorem encode_code_of_named [OpenCode α] {c : α} {name : String}
    (h : OpenCode.name? c = some name) : (code α).encode .json c = .ok (.string name) := by
  simp only [code, h]

/-- A code without a name is written as its number. -/
theorem encode_code_of_unnamed [OpenCode α] {c : α} (h : OpenCode.name? c = none) :
    (code α).encode .json c = .ok (.int (OpenCode.toNumber c).toNat) := by
  simp only [code, h]

/-- A code travels as what its number stands for, though the text form may name it.  The binary form
is the number itself; the text form is a name, if there is one. -/
theorem travels_code [OpenCode α] [OpenCode.Lawful α] (c : α) :
    (code α).Travels f cx n c (OpenCode.ofNumber (OpenCode.toNumber c)) where
  reads v hv := by
    have hnumber := decode_number f cx (OpenCode.toNumber c)
    cases f with
    | cbor =>
      obtain rfl := Except.ok.inj hv
      show (uint64.decode .cbor cx (.int (OpenCode.toNumber c).toNat)).map OpenCode.ofNumber = _
      exact congrArg (Except.map OpenCode.ofNumber) hnumber
    | json =>
      cases hname : OpenCode.name? c with
      | none =>
        obtain rfl := Except.ok.inj ((encode_code_of_unnamed hname).symm.trans hv)
        show (uint64.decode .json cx (.int (OpenCode.toNumber c).toNat)).map OpenCode.ofNumber = _
        exact congrArg (Except.map OpenCode.ofNumber) hnumber
      | some name =>
        obtain ⟨hback, hself⟩ := OpenCode.Lawful.ofName?_name c name hname
        obtain rfl := Except.ok.inj ((encode_code_of_named hname).symm.trans hv)
        simp only [code, hback, hself]
  plain v hv := by
    cases f with
    | cbor =>
      obtain rfl := Except.ok.inj hv
      exact plain_number .cbor (OpenCode.toNumber c)
    | json =>
      cases hname : OpenCode.name? c with
      | none =>
        obtain rfl := Except.ok.inj ((encode_code_of_unnamed hname).symm.trans hv)
        exact plain_number .json (OpenCode.toNumber c)
      | some name =>
        obtain rfl := Except.ok.inj ((encode_code_of_named hname).symm.trans hv)
        exact Json.Plain.string name

/-! ### Payloads without a tag -/

/-- UUIDs travel. -/
theorem travels_uuid (u : Uuid) : uuid.Travels f cx n u u where
  reads v hv := by
    cases f with
    | cbor =>
      obtain rfl := Except.ok.inj hv
      show Coded.ofChoice (Uuid.lift (Uuid.ofBytes u.bytes)) = _
      rw [Uuid.ofBytes_bytes]
      rfl
    | json =>
      obtain rfl := Except.ok.inj hv
      show Coded.ofChoice (Uuid.lift (Uuid.parse u.toText)) = _
      rw [Uuid.parse_toText]
      rfl
  plain v hv := by
    cases f with
    | cbor =>
      obtain rfl := Except.ok.inj hv
      exact Cbor.Plain.bytes _
    | json =>
      obtain rfl := Except.ok.inj hv
      exact Json.Plain.string _

theorem travels_ueid (u : Ueid) : ueid.Travels f cx n u u where
  reads v hv := by
    obtain rfl := Except.ok.inj hv
    show (f.toBytes (f.ofBytes u.bytes)).map Ueid.mk = _
    rw [toBytes_ofBytes]
    rfl
  plain v hv := by
    obtain rfl := Except.ok.inj hv
    exact plain_ofBytes f _

theorem decode_parts {cx : Context} {x : Cbor} {k : UInt64}
    (hx : uint64.decode .cbor cx x = .ok k) (b : List UInt8)
    (make : UInt64 → List UInt8 → Coded α) :
    (do
      let id ← uint64.decode .cbor cx x
      let b ← Format.toBytes .cbor (.bytes b)
      make id b) = make k b := by
  rw [hx]
  rfl

theorem decode_digest_of_id {cx : Context} {x : Cbor} {k : UInt64}
    (hx : uint64.decode .cbor cx x = .ok k) (b : List UInt8) :
    digest.decode .cbor cx (.array [x, .bytes b]) = Coded.ofChoice (Digest.ofParts k.toNat b) :=
  -- The parts are made into a digest by an argument, so that no bound on numbers is evaluated.
  decode_parts hx b fun id b => Coded.ofChoice (Digest.ofParts id.toNat b)

/-- Digests travel. -/
theorem travels_digest (d : Digest) : digest.Travels f cx (n + 1) d d where
  reads v hv := by
    cases f with
    | cbor =>
      obtain rfl := Except.ok.inj hv
      have hid : uint64.decode .cbor cx (.int d.alg.id.toNat) = .ok d.alg.id :=
        decode_number .cbor cx d.alg.id
      rw [Digest.toCbor, decode_digest_of_id hid, Digest.ofParts_id]
      rfl
    | json =>
      obtain rfl := Except.ok.inj hv
      show Coded.ofChoice (Digest.ofText d.toText) = _
      rw [Digest.ofText_toText]
      rfl
  plain v hv := by
    cases f with
    | cbor =>
      obtain rfl := Except.ok.inj hv
      exact d.plain_toCbor.mono (by omega)
    | json =>
      obtain rfl := Except.ok.inj hv
      exact Json.Plain.string _

/-- A document identifier travels unless it is text that spells a UUID.  A text that spelled a UUID
would be read as one, and validity excludes it. -/
theorem travels_tagId {id : TagId} (h : id.isMisheld = false) : tagId.Travels f cx n id id where
  reads v hv := by
    cases id with
    | text s =>
      cases f with
      | cbor =>
        obtain rfl := Except.ok.inj hv
        rfl
      | json =>
        obtain rfl := Except.ok.inj hv
        have hparse : (Uuid.parse s).toBool = false := h
        show Except.ok (TagId.ofText s) = _
        unfold TagId.ofText
        cases hp : Uuid.parse s with
        | ok u =>
          rw [hp] at hparse
          cases hparse
        | error e => rfl
    | uuid u =>
      cases f with
      | cbor =>
        obtain rfl := Except.ok.inj hv
        show (Coded.ofChoice (Uuid.lift (Uuid.ofBytes u.bytes))).map TagId.uuid = _
        rw [Uuid.ofBytes_bytes]
        rfl
      | json =>
        obtain rfl := Except.ok.inj hv
        show Except.ok (TagId.ofText u.toText) = _
        unfold TagId.ofText
        rw [Uuid.parse_toText]
  plain v hv := by
    cases id with
    | text s =>
      have htext : string.Travels f cx n s s := travels_string s
      exact htext.plain v hv
    | uuid u =>
      have huuid : uuid.Travels f cx n u u := travels_uuid u
      exact huuid.plain v hv

/-- A valid choice with one of the family's own variants travels as itself. -/
theorem travels_choice (hcx : cx.catalogs.Includes .standard) {family : Family}
    {x : family.Value} (hown : TypeChoice.isForeign x = false)
    (hvalid : TypeChoice.check x = .ok ()) :
    (choice family).Travels f cx (n + 2) x x where
  reads _ hv := choice_decode_of_encode hcx hown hvalid hv
  plain _ hv := (plain_choice hown hv).mono (by omega)

/-! ### Lists -/

end FieldCodec

theorem Coded.of_underIndex {α : Type} {index : Nat} {x : Coded α} {a : α}
    (h : Coded.underIndex index x = .ok a) : x = .ok a := by
  cases x with
  | error e => cases h
  | ok b => exact h

theorem exists_of_encodeItems_cons {α β : Type} {one : α → Coded β} {index : Nat} {a : α}
    {l : List α} {vs : List β} (h : encodeItems one index (a :: l) = .ok vs) :
    ∃ x xs, one a = .ok x ∧ encodeItems one (index + 1) l = .ok xs ∧ vs = x :: xs := by
  rw [encodeItems] at h
  obtain ⟨x, hx, h⟩ := exists_of_bind_eq_ok h
  obtain ⟨xs, hl, h⟩ := exists_of_bind_eq_ok h
  exact ⟨x, xs, Coded.of_underIndex hx, hl, (Except.ok.inj h).symm⟩

/-- The items of a written list are what its values write. -/
theorem mem_encodeItems {α β : Type} {one : α → Coded β} {index : Nat} {l : List α} {vs : List β}
    (h : encodeItems one index l = .ok vs) : ∀ v ∈ vs, ∃ a ∈ l, one a = .ok v := by
  induction l generalizing index vs with
  | nil =>
    obtain rfl := Except.ok.inj h
    simp
  | cons a l ih =>
    obtain ⟨x, xs, ha, hl, rfl⟩ := exists_of_encodeItems_cons h
    intro v hv
    rcases List.mem_cons.1 hv with rfl | hv
    · exact ⟨a, List.mem_cons_self, ha⟩
    · obtain ⟨b, hb, hbv⟩ := ih hl v hv
      exact ⟨b, List.mem_cons_of_mem _ hb, hbv⟩

/-- The items of a list are written each in its place. -/
theorem getElem?_encodeItems {α β : Type} {one : α → Coded β} {index i : Nat} {xs : List α}
    {vs : List β} {x : α} {v : β} (h : encodeItems one index xs = .ok vs) (hx : xs[i]? = some x)
    (hv : vs[i]? = some v) : one x = .ok v := by
  induction xs generalizing index i vs with
  | nil => cases hx
  | cons a xs ih =>
    obtain ⟨b, bs, hone, hrest, rfl⟩ := exists_of_encodeItems_cons h
    cases i with
    | zero =>
      obtain rfl := Option.some.inj hx
      obtain rfl := Option.some.inj hv
      exact hone
    | succ i => exact ih hrest hx hv

/-- A list is read back if its items are. -/
theorem encodeItems_of_encodeItems {α β : Type} {one : α → Coded β} {back : β → Coded α}
    {norm : α → α} {i : Nat} (j : Nat) {l : List α} {vs : List β}
    (hback : ∀ a ∈ l, ∀ v, one a = .ok v → back v = .ok (norm a))
    (h : encodeItems one i l = .ok vs) : encodeItems back j vs = .ok (l.map norm) := by
  induction l generalizing i j vs with
  | nil =>
    obtain rfl := Except.ok.inj h
    rfl
  | cons a l ih =>
    obtain ⟨hfirst, hback⟩ := List.forall_mem_cons.1 hback
    obtain ⟨x, xs, ha, hl, rfl⟩ := exists_of_encodeItems_cons h
    rw [encodeItems, hfirst x ha, ih (j + 1) hback hl]
    rfl

namespace FieldCodec

variable {α : Type} {f : Format} {cx : Context} {n : Nat}

theorem toList_ofList (f : Format) (vs : List (Raw f)) : f.toList (f.ofList vs) = .ok vs := by
  cases f <;> rfl

theorem plain_ofList {f : Format} {vs : List (Raw f)} (h : ∀ v ∈ vs, f.Plain n v) :
    f.Plain (n + 1) (f.ofList vs) := by
  cases f with
  | cbor => exact Cbor.Plain.array h
  | json => exact Json.Plain.array h

/-- A list is written as the list of what its items write. -/
theorem exists_of_encode_list {c : FieldCodec α} {f : Format} {l : List α} {v : Raw f}
    (hv : (list c).encode f l = .ok v) :
    ∃ vs, encodeItems (c.encode f) 0 l = .ok vs ∧ v = f.ofList vs := by
  obtain ⟨vs, hvs, rfl⟩ := exists_of_map_eq_ok hv
  exact ⟨vs, hvs, rfl⟩

/-- A list travels item by item. -/
theorem travels_list {c : FieldCodec α} {l : List α} (norm : α → α)
    (h : ∀ a ∈ l, c.Travels f cx n a (norm a)) : (list c).Travels f cx (n + 1) l (l.map norm) where
  reads v hv := by
    obtain ⟨vs, hvs, rfl⟩ := exists_of_encode_list hv
    show (do encodeItems (c.decode f cx) 0 (← f.toList (f.ofList vs))) = _
    rw [toList_ofList]
    exact encodeItems_of_encodeItems 0 (fun a ha v hav => (h a ha).reads v hav) hvs
  plain v hv := by
    obtain ⟨vs, hvs, rfl⟩ := exists_of_encode_list hv
    apply plain_ofList
    intro v hmem
    obtain ⟨a, ha, hav⟩ := mem_encodeItems hvs v hmem
    exact (h a ha).plain v hav

/-- A list whose items travel as themselves travels as itself. -/
theorem travels_items {c : FieldCodec α} {l : List α} (h : ∀ a ∈ l, c.Travels f cx n a a) :
    (list c).Travels f cx (n + 1) l l := by
  have hid : (list c).Travels f cx (n + 1) l (l.map id) := travels_list id h
  rwa [List.map_id] at hid

theorem Travels.under {standIns : List StandIn} {c : FieldCodec α} {a b : α}
    (h : c.Travels f (cx.withStandIns standIns) n a b) :
    (FieldCodec.under standIns c).Travels f cx n a b where
  reads := h.reads
  plain := h.plain

end FieldCodec

/-! ## Fields of records -/

/-- What a member writes of `r` is plain, and reading changes any record by `change`. -/
structure Member.Travels {R : Type} (m : Member R) (f : Format) (cx : Context) (n : Nat) (r : R)
    (change : R → R) : Prop where
  restores : m.Restores f cx r change
  plain : ∀ v, m.encode f r = some (.ok v) → f.Plain n v

namespace Member

variable {R α : Type} {c : FieldCodec α} {spec : FieldSpec} {f : Format} {cx : Context} {n : Nat}
  {r : R}

theorem encode_of_encodeUnlessEmpty {f : Format} {a : α} {v : Raw f}
    (h : encodeUnlessEmpty c spec f a = some (.ok v)) : c.encode f a = .ok v := by
  unfold encodeUnlessEmpty at h
  split at h
  · cases h
  · exact Option.some.inj h

/-- A field of a value that travels restores it. -/
theorem travels_required {get : R → α} {set : α → R → R} {b : α} (ho : spec.isOptional = false)
    (h : c.Travels f cx n (get r) b) : (required spec c get set).Travels f cx n r (set b) where
  restores := restores_required ho h.reads
  plain v hv := h.plain v (encode_of_encodeUnlessEmpty hv)

/-- An optional field restores its value, unless that is empty. -/
theorem travels_optional (get : R → Option α) (set : Option α → R → R) (norm : α → α)
    (ho : spec.isOptional = true) (h : ∀ a, get r = some a → c.Travels f cx n a (norm a)) :
    (optional spec c get set).Travels f cx n r
      (set (((get r).filter fun a => !c.isEmpty a).map norm)) where
  restores := restores_optional norm ho fun a ha _ => (h a ha).reads
  plain v hv := by
    obtain ⟨a, ha, hav⟩ := Option.bind_eq_some_iff.1 (show (get r).bind _ = _ from hv)
    exact (h a ha).plain v (encode_of_encodeUnlessEmpty hav)

/-- An optional field whose values travel as themselves loses an empty value. -/
theorem travels_filtered {get : R → Option α} {set : Option α → R → R}
    (ho : spec.isOptional = true) (h : ∀ a, get r = some a → c.Travels f cx n a a) :
    (optional spec c get set).Travels f cx n r (set ((get r).filter fun a => !c.isEmpty a)) := by
  have hid := travels_optional get set id ho h
  rwa [Option.map_id, id_eq] at hid

/-- An optional field whose values are never empty keeps them. -/
theorem travels_mapped {get : R → Option α} {set : Option α → R → R} (norm : α → α)
    (ho : spec.isOptional = true) (hne : ∀ a, c.isEmpty a = false)
    (h : ∀ a, get r = some a → c.Travels f cx n a (norm a)) :
    (optional spec c get set).Travels f cx n r (set ((get r).map norm)) := by
  have hfilter : (get r).filter (fun a => !c.isEmpty a) = get r := by
    cases get r <;> simp [hne]
  have hall := travels_optional get set norm ho h
  rwa [hfilter] at hall

theorem travels_kept {get : R → Option α} {set : Option α → R → R}
    (ho : spec.isOptional = true) (hne : ∀ a, c.isEmpty a = false)
    (h : ∀ a, get r = some a → c.Travels f cx n a a) :
    (optional spec c get set).Travels f cx n r (set (get r)) := by
  have hid : (optional spec c get set).Travels f cx n r (set ((get r).map id)) :=
    travels_mapped id ho hne h
  rwa [Option.map_id, id_eq] at hid

/-- A field with a value to stand for its absence restores its value, or that one. -/
theorem travels_defaulted {absent : α} {get : R → α} {set : α → R → R} {b : α}
    (ho : spec.isOptional = true) (h : c.Travels f cx n (get r) b) :
    (defaulted spec c absent get set).Travels f cx n r
      (set (if c.isEmpty (get r) then absent else b)) where
  restores := restores_defaulted ho fun _ => h.reads
  plain v hv := h.plain v (encode_of_encodeUnlessEmpty hv)

/-- A list that stands for itself when it is absent travels item by item. -/
theorem travels_list {c : FieldCodec (List α)} {get : R → List α} {set : List α → R → R}
    (norm : α → α) (ho : spec.isOptional = true) (hempty : ∀ l, c.isEmpty l = l.isEmpty)
    (h : c.Travels f cx n (get r) ((get r).map norm)) :
    (defaulted spec c [] get set).Travels f cx n r (set ((get r).map norm)) := by
  have hif : (if c.isEmpty (get r) then [] else (get r).map norm) = (get r).map norm := by
    rw [hempty]
    cases get r <;> rfl
  have hall : (defaulted spec c [] get set).Travels f cx n r
      (set (if c.isEmpty (get r) then [] else (get r).map norm)) :=
    travels_defaulted ho h
  rwa [hif] at hall

theorem travels_items {c : FieldCodec (List α)} {get : R → List α} {set : List α → R → R}
    (ho : spec.isOptional = true) (hempty : ∀ l, c.isEmpty l = l.isEmpty)
    (h : c.Travels f cx n (get r) (get r)) :
    (defaulted spec c [] get set).Travels f cx n r (set (get r)) := by
  have hid : c.Travels f cx n (get r) ((get r).map id) := by rwa [List.map_id]
  have hall : (defaulted spec c [] get set).Travels f cx n r (set ((get r).map id)) :=
    travels_list id ho hempty hid
  rwa [List.map_id] at hall

theorem Travels.embedded {S : Type} {m : Member R} {change : R → R} {get : S → R}
    {set : R → S → S} {s : S} (h : m.Travels f cx n (get s) change) :
    (m.embedded get set).Travels f cx n s fun s₀ => set (change (get s₀)) s₀ where
  restores := h.restores.embedded
  plain := h.plain

end Member

/-! ## Records -/

/-- The record of plain values is plain.  Distinct fields have distinct names and keys, in whatever
order a layout puts them. -/
theorem Format.plain_ofEntries {n : Nat} {f : Format} (layout : Layout) {w : Written f}
    (hapart : (w.map (·.1)).Pairwise FieldSpec.Apart) (h : ∀ e ∈ w, f.Plain n e.2) :
    f.Plain (n + 1) (f.ofEntries layout w) := by
  have hkeys := nodup_keys_of_apart hapart f
  rw [List.map_map] at hkeys
  cases f with
  | json =>
    refine Json.Plain.object ?_ fun e he => ?_
    · rw [List.map_map]
      exact hkeys
    · obtain ⟨a, ha, rfl⟩ := List.mem_map.1 he
      exact h a ha
  | cbor =>
    cases layout with
    | array =>
      apply Cbor.Plain.array
      intro v hv
      obtain ⟨e, he, rfl⟩ := List.mem_map.1 hv
      exact h e (List.mem_mergeSort.1 he)
    | map =>
      have hof : ofEntries .cbor .map w =
          Cbor.mapOf ((w.map fun e => (e.1.key, e.2)).map Cbor.keyed) := by
        rw [List.map_map]
        rfl
      rw [hof]
      refine Cbor.plain_mapOf ?_ fun e he => ?_
      · rw [List.map_map]
        exact hkeys
      · obtain ⟨a, ha, rfl⟩ := List.mem_map.1 he
        exact h a ha

namespace RecordShape

variable {R : Type} {s : RecordShape R} {f : Format} {cx : Context} {n : Nat}
  {r blank result : R}

/-- The members of a record type, one after the other, make `result` of `blank` by changes that are
those of the members. -/
inductive Chain (P : Member R → (R → R) → Prop) : List (Member R) → R → R → Prop where
  | nil {blank result : R} (h : blank = result) : Chain P [] blank result
  | cons {m : Member R} {rest : List (Member R)} {change : R → R} {blank result : R}
    (h : P m change) (hrest : Chain P rest (change blank) result) :
    Chain P (m :: rest) blank result

theorem Chain.exists_plan {P : Member R → (R → R) → Prop} {members : List (Member R)}
    {blank result : R} (h : Chain P members blank result) :
    ∃ plan : List (Member R × (R → R)), plan.map (·.1) = members ∧ (∀ p ∈ plan, P p.1 p.2) ∧
      plan.foldl (fun acc p => p.2 acc) blank = result := by
  induction h with
  | nil h => exact ⟨[], rfl, by simp, h⟩
  | @cons m rest change _ _ h _ ih =>
    obtain ⟨plan, rfl, hplan, hresult⟩ := ih
    exact ⟨(m, change) :: plan, rfl, List.forall_mem_cons.2 ⟨h, hplan⟩, hresult⟩

/-- The members of a record type make `result` of `blank` when they read what is written of `r`. -/
abbrev TravelAll (f : Format) (cx : Context) (n : Nat) (r : R) : List (Member R) → R → R → Prop :=
  Chain fun m change => m.Travels f cx n r change

/-- Members that belong to a family travel one after the other. -/
theorem travelAll_map {ι : Type} (member : ι → Member R) {change : ι → R → R} (l : List ι)
    (h : ∀ i ∈ l, (member i).Travels f cx n r (change i)) (blank : R) :
    TravelAll f cx n r (l.map member) blank (l.foldl (fun acc i => change i acc) blank) := by
  induction l generalizing blank with
  | nil => exact .nil rfl
  | cons i l ih =>
    obtain ⟨hi, hl⟩ := List.forall_mem_cons.1 h
    exact .cons hi (ih hl _)

/-- The members of a record type and its schema belong together, and they travel. -/
structure Travels (s : RecordShape R) (f : Format) (cx : Context) (n : Nat) (r blank result : R) :
    Prop where
  sound : s.Sound
  members : TravelAll f cx n r s.members blank result

/-- A record is read back if its fields travel. -/
theorem Travels.reads (h : s.Travels f cx n r blank result) {v : Raw f}
    (hv : s.encode f r = .ok v) :
    s.decode f cx blank v = .ok result := by
  obtain ⟨plan, hmembers, hplan, hresult⟩ := h.members.exists_plan
  have hperm : (plan.map (·.1)).Perm s.members := by
    rw [hmembers]
  have hread := decode_of_encode h.sound hperm (fun p hp => (hplan p hp).restores) hv blank
  rwa [hmembers, hresult] at hread

/-- What the members of a record write is plain. -/
theorem Travels.plain_writtenBy (h : s.Travels f cx n r blank result) :
    ∀ e ∈ writtenBy f r s.members, f.Plain n e.2 := by
  obtain ⟨plan, hmembers, hplan, -⟩ := h.members.exists_plan
  intro e he
  obtain ⟨m, hm, hentry⟩ := List.mem_filterMap.1 he
  rw [← hmembers] at hm
  obtain ⟨p, hp, rfl⟩ := List.mem_map.1 hm
  obtain ⟨v, henc, rfl⟩ := Member.exists_of_written? hentry
  exact (hplan p hp).plain v henc

/-- It is written as a plain value one deeper than its fields. -/
theorem Travels.plain (h : s.Travels f cx n r blank result) {v : Raw f}
    (hv : s.encode f r = .ok v) : f.Plain (n + 1) v := by
  obtain ⟨-, rfl⟩ := (encode_eq_ok_iff h.sound).1 hv
  exact Format.plain_ofEntries _ (h.sound.apart.sublist (map_fst_writtenBy_sublist _))
    h.plain_writtenBy

/-- A record travels if its fields do. -/
theorem Travels.codec (h : s.Travels f cx n r blank result) :
    (s.codec blank).Travels f cx (n + 1) r result where
  reads _ hv := h.reads hv
  plain _ hv := h.plain hv

/-- A record that holds records with hooks is read into a blank one that has its hooks. -/
theorem Travels.holding [Attachable R] {fresh : R} (hattach : cx.attach fresh = .ok blank)
    (h : s.Travels f cx n r blank result) : (s.holding fresh).Travels f cx (n + 1) r result where
  reads v hv := by
    show (Coded.ofHook (cx.attach fresh)).bind _ = _
    rw [hattach]
    exact h.reads hv
  plain _ hv := h.plain hv

end RecordShape

end Rim
