import Rim.Record.Datum
/-!
# What codecs have from their parts

Whatever is true of reading a record is mostly true because it is true of reading its fields.  A
property of codecs and of members that the plain codecs have, and that each way of making codecs and
members hands on, need not be followed through the record types one by one.

## Main definitions

* `MemberLaw`: a property of codecs and of members that they have from their parts.

## Main results

* `MemberLaw.member_identityShape`, `MemberLaw.member_entityShape`: entities have it.
-/

namespace Rim

/-- A property of codecs, and one of members, which the plain codecs have and which lists, stand-ins
and fields have from what they are made of. -/
structure MemberLaw where
  codec : {α : Type} → FieldCodec α → Prop
  member : {R : Type} → Member R → Prop
  bool : codec FieldCodec.bool
  uint64 : codec FieldCodec.uint64
  string : codec FieldCodec.string
  bytes : codec FieldCodec.bytes
  code : ∀ {α : Type} [OpenCode α], codec (FieldCodec.code α)
  uuid : codec FieldCodec.uuid
  ueid : codec FieldCodec.ueid
  digest : codec FieldCodec.digest
  tagId : codec FieldCodec.tagId
  choice : ∀ family : Family, codec (FieldCodec.choice family)
  list : ∀ {α : Type} {c : FieldCodec α}, codec c → codec (FieldCodec.list c)
  endorsed : ∀ {α : Type} {c : FieldCodec α}, codec c →
    codec (FieldCodec.under StandIn.endorsed c)
  required : ∀ {R α : Type} {c : FieldCodec α} {spec : FieldSpec} {get : R → α}
    {set : α → R → R}, codec c → member (Member.required spec c get set)
  optional : ∀ {R α : Type} {c : FieldCodec α} {spec : FieldSpec} {get : R → Option α}
    {set : Option α → R → R}, codec c → member (Member.optional spec c get set)
  defaulted : ∀ {R α : Type} {c : FieldCodec α} {spec : FieldSpec} {absent : α} {get : R → α}
    {set : α → R → R}, codec c → member (Member.defaulted spec c absent get set)
  embedded : ∀ {R S : Type} {m : Member R} {get : S → R} {set : R → S → S}, member m →
    member (m.embedded get set)

namespace MemberLaw

variable (L : MemberLaw)

theorem member_identityShape {m : Member EntityIdentity} (hm : m ∈ identityShape.members) :
    L.member m := by
  simp only [identityShape, RecordShape.flat, List.mem_cons, List.not_mem_nil, or_false] at hm
  rcases hm with rfl | rfl
  · exact L.required L.string
  · exact L.optional L.string

theorem member_entityShape {m : Member Entity} (hm : m ∈ entityShape.members) : L.member m := by
  rcases List.mem_append.1 hm with hm | hm
  · obtain ⟨own, hown, rfl⟩ := List.mem_map.1 hm
    exact L.embedded (L.member_identityShape hown)
  · obtain rfl := List.mem_singleton.1 hm
    exact L.required (L.list L.code)

end MemberLaw

end Rim
