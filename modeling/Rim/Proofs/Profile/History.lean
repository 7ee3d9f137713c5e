import Mathlib.Data.List.Induction
import Rim.Profile.Index
import Rim.Proofs.Basic
import Rim.Proofs.Payload.Oid
import Rim.Validity.Basic
/-!
# Histories of the registered profiles

Profiles are found by the texts of their names, and a URI and an object identifier share that
space of texts.  A valid URI holds a colon and a dotted identifier holds none, and among names of
one variant the text tells the name, so for valid names of the built-in variants the texts are as
good as the names themselves.  The index is then a map from names to bundles after any calls with
any outcomes.

A variant registered from outside may show any text, and an unchecked identifier may show the text
of another name.  The results are about valid names of the built-in variants for this reason.

## Main definitions

* `ProfileId.IsProper`: a name of a built-in variant that is valid.
* `ProfileCall`: a profile added or removed; `ProfileIndex.after` for what calls leave behind.
* `InForce`: the bundle some calls added last under a name and did not remove since.
* `ProfileIndex.SameAnswers`: nothing that is asked of one name tells two indexes apart.

## Main results

* `ProfileId.text_inj`: proper names with one text are one name.
* `ProfileIndex.sound_after`: what holds of the stored profiles after any calls.
* `ProfileIndex.find?_after_eq_some_iff`: what is found under a name is the bundle in force.
* `ProfileIndex.faithful_map`: all of it together.
-/

namespace Rim

/-! ## Names and their texts -/

namespace ProfileId

/-- A name of a built-in variant that is valid. -/
structure IsProper (id : ProfileId) : Prop where
  builtin : TypeChoice.isForeign id = false
  valid : Validate.validate id = .ok ()

variable {id id' : ProfileId}

/-- A valid name passes the check of its variant. -/
theorem IsProper.check_eq (h : id.IsProper) : TypeChoice.check id = .ok () := by
  have hvalid : Validate.ofChoice (TypeChoice.check id) = .ok () := h.valid
  cases hcheck : TypeChoice.check id with
  | error e =>
    rw [hcheck] at hvalid
    cases hvalid
  | ok u => rfl

theorem isAbsolute_of_isProper {u : Uri} (h : (uri u).IsProper) : Uri.isAbsolute u.text = true := by
  have hcheck : Uri.payload.check u = .ok () := h.check_eq
  simp only [Uri.payload, PayloadType.text] at hcheck
  by_contra hnot
  rw [if_neg hnot] at hcheck
  cases hcheck

theorem check_of_isProper {o : Oid} (h : (oid o).IsProper) : o.check = .ok () := by
  have hcheck : Oid.lift o.check = .ok () := h.check_eq
  cases ho : o.check with
  | error e =>
    rw [ho] at hcheck
    cases hcheck
  | ok u => rfl

/-- An absolute URI has a colon behind its scheme. -/
theorem colon_mem_of_isAbsolute {text : String} (h : Uri.isAbsolute text = true) :
    ':' ∈ text.toList := by
  unfold Uri.isAbsolute at h
  simp only at h
  split at h
  case h_1 c rest hdrop =>
    apply List.mem_of_mem_drop
    rw [hdrop]
    exact List.mem_cons_self
  case h_2 => cases h

/-- What is in joined parts is in one of them or in what joins them. -/
theorem mem_of_mem_intercalate {c : Char} {sep : List Char} {parts : List (List Char)}
    (h : c ∈ sep.intercalate parts) : c ∈ sep ∨ ∃ part ∈ parts, c ∈ part := by
  induction parts with
  | nil => simp at h
  | cons part more ih =>
    cases more with
    | nil =>
      rw [List.intercalate_singleton] at h
      exact .inr ⟨part, List.mem_cons_self, h⟩
    | cons next more =>
      rw [List.intercalate_cons_cons, List.append_assoc, List.mem_append, List.mem_append] at h
      rcases h with hpart | hsep | hmore
      · exact .inr ⟨part, List.mem_cons_self, hpart⟩
      · exact .inl hsep
      · rcases ih hmore with hsep | ⟨part', hpart', hc⟩
        · exact .inl hsep
        · exact .inr ⟨part', List.mem_cons_of_mem _ hpart', hc⟩

/-- A dotted identifier is made of digits and dots. -/
theorem colon_notMem_toText (o : Oid) : ':' ∉ o.toText.toList := by
  intro hmem
  unfold Oid.toText at hmem
  rw [String.toList_intercalate, List.map_map] at hmem
  rcases mem_of_mem_intercalate hmem with hdot | ⟨part, hpart, hcolon⟩
  · simp at hdot
  · obtain ⟨arc, -, rfl⟩ := List.mem_map.1 hpart
    have hnumeral : ':' ∈ numeral arc.toNat := by
      rw [← toList_toString_nat]
      exact hcolon
    exact absurd (digitValue?_of_mem_numeral hnumeral) (by decide)

/-- Proper names with one text are one name. -/
theorem text_inj (h : id.IsProper) (h' : id'.IsProper) (htext : id.text = id'.text) : id = id' := by
  cases id with
  | registered v => cases h.builtin
  | uri u =>
    have hcolon := colon_mem_of_isAbsolute (isAbsolute_of_isProper h)
    cases id' with
    | registered v => cases h'.builtin
    | uri u' =>
      obtain ⟨text⟩ := u
      obtain ⟨text'⟩ := u'
      obtain rfl : text = text' := htext
      rfl
    | oid o =>
      have htext' : u.text = o.toText := htext
      rw [htext'] at hcolon
      exact absurd hcolon (colon_notMem_toText o)
  | oid o =>
    cases id' with
    | registered v => cases h'.builtin
    | uri u =>
      have hcolon := colon_mem_of_isAbsolute (isAbsolute_of_isProper h')
      have htext' : o.toText = u.text := htext
      rw [← htext'] at hcolon
      exact absurd hcolon (colon_notMem_toText o)
    | oid o' =>
      have htext' : o.toText = o'.toText := htext
      have hread := Oid.ofText_toText (check_of_isProper h)
      rw [htext', Oid.ofText_toText (check_of_isProper h')] at hread
      rw [Except.ok.inj hread]

end ProfileId

/-! ## One call

A registration that fails leaves the index as it was. -/

/-- A call on the registered profiles. -/
inductive ProfileCall where
  | add (id : ProfileId) (bundle : Bundle)
  | remove (id : ProfileId)

/-- The name a call is about. -/
def ProfileCall.id : ProfileCall → ProfileId
  | add id _ => id
  | remove id => id

/-- The index a call leaves behind, whether it succeeds or not. -/
def ProfileCall.next (c : ProfileCall) (r : ProfileIndex) : ProfileIndex :=
  match c with
  | add id bundle =>
    match r.add id bundle with
    | .ok r' => r'
    | .error _ => r
  | remove id => (r.remove id).1

namespace ProfileIndex

variable {r r' : ProfileIndex} {id other : ProfileId} {bundle : Bundle} {text : String}

/-- What holds of the stored profiles: their names are proper and have different texts, and their
hooks stand at points that some kind of document has. -/
structure Sound (r : ProfileIndex) : Prop where
  proper : ∀ p ∈ r.profiles, p.id.IsProper
  distinct : (r.profiles.map (·.id.text)).Nodup
  known : ∀ p ∈ r.profiles, ∀ q ∈ p.bundle.points, DocumentKind.anyHas q = true

/-- The empty index is sound. -/
theorem sound_empty : empty.Sound where
  proper := List.forall_mem_nil _
  distinct := List.nodup_nil
  known := List.forall_mem_nil _

/-- A name is free if no profile has its text. -/
theorem contains_eq_false_iff : r.contains id = false ↔ ∀ p ∈ r.profiles, p.id.text ≠ id.text := by
  rw [contains_eq_any, List.any_eq_false]
  simp

/-- Registering a profile leaves a sound index. -/
theorem Sound.add (h : r.Sound) (hid : id.IsProper) (hadd : r.add id bundle = .ok r') :
    r'.Sound := by
  obtain ⟨hfree, hknown, rfl⟩ := add_eq_ok_iff.1 hadd
  refine ⟨?_, ?_, ?_⟩
  · intro p hp
    rcases mem_insertBy.1 hp with rfl | hp
    · exact hid
    · exact h.proper p hp
  · -- The text of the new name is none of those before.
    rw [((perm_insertBy (·.id.text) ⟨id, bundle⟩ r.profiles).map (·.id.text)).nodup_iff,
      List.map_cons, List.nodup_cons]
    refine ⟨?_, h.distinct⟩
    intro hmem
    obtain ⟨p, hp, htext⟩ := List.mem_map.1 hmem
    exact contains_eq_false_iff.1 hfree p hp htext
  · intro p hp
    rcases mem_insertBy.1 hp with rfl | hp
    · exact hknown
    · exact h.known p hp

theorem Sound.remove (h : r.Sound) (id : ProfileId) : (r.remove id).1.Sound where
  proper p hp := h.proper p (List.mem_filter.1 hp).1
  distinct := h.distinct.sublist (List.filter_sublist.map _)
  known p hp := h.known p (List.mem_filter.1 hp).1

/-- A call about a proper name keeps the stored profiles sound. -/
theorem Sound.next (h : r.Sound) {c : ProfileCall} (hc : c.id.IsProper) : (c.next r).Sound := by
  cases c with
  | remove id => exact h.remove id
  | add id bundle =>
    cases hadd : r.add id bundle with
    | error e =>
      simp only [ProfileCall.next, hadd]
      exact h
    | ok r' =>
      simp only [ProfileCall.next, hadd]
      exact h.add hc hadd

theorem Sound.find?_eq_some_iff (h : r.Sound) {p : Profile} :
    r.find? text = some p ↔ p ∈ r.profiles ∧ p.id.text = text :=
  find?_key_eq_some_iff h.distinct

/-- What an added profile changes is what is found under its own text. -/
theorem Sound.find?_add (h : r.Sound) (hid : id.IsProper) (hadd : r.add id bundle = .ok r') :
    r'.find? text = if id.text = text then some ⟨id, bundle⟩ else r.find? text := by
  have hfree := (add_eq_ok_iff.1 hadd).1
  apply Option.ext
  intro p
  rw [(h.add hid hadd).find?_eq_some_iff]
  obtain ⟨-, -, rfl⟩ := add_eq_ok_iff.1 hadd
  rw [mem_insertBy]
  split
  case isTrue htext =>
    subst htext
    rw [Option.some.injEq]
    constructor
    · rintro ⟨rfl | hp, htext⟩
      · rfl
      · exact absurd htext (contains_eq_false_iff.1 hfree p hp)
    · rintro rfl
      exact ⟨.inl rfl, rfl⟩
  case isFalse htext =>
    rw [h.find?_eq_some_iff]
    constructor
    · rintro ⟨rfl | hp, hp'⟩
      · exact absurd hp' htext
      · exact ⟨hp, hp'⟩
    · rintro ⟨hp, hp'⟩
      exact ⟨.inr hp, hp'⟩

/-- What a removed profile changes is what is found under its own text. -/
theorem Sound.find?_remove (h : r.Sound) (id : ProfileId) :
    (r.remove id).1.find? text = if id.text = text then none else r.find? text := by
  apply Option.ext
  intro p
  rw [(h.remove id).find?_eq_some_iff, ProfileIndex.remove, List.mem_filter, bne_iff_ne]
  split
  case isTrue htext =>
    subst htext
    simp
  case isFalse htext =>
    rw [h.find?_eq_some_iff]
    constructor
    · rintro ⟨⟨hp, -⟩, hp'⟩
      exact ⟨hp, hp'⟩
    · rintro ⟨hp, rfl⟩
      exact ⟨⟨hp, fun heq => htext heq.symm⟩, rfl⟩

/-- A call about one proper name does not change what is found under another. -/
theorem Sound.find?_next_of_ne (h : r.Sound) {c : ProfileCall} (hc : c.id.IsProper)
    (hother : other.IsProper) (hne : c.id ≠ other) :
    (c.next r).find? other.text = r.find? other.text := by
  have htext : c.id.text ≠ other.text := by
    intro heq
    exact hne (ProfileId.text_inj hc hother heq)
  cases c with
  | remove id =>
    rw [ProfileCall.next, h.find?_remove]
    exact if_neg htext
  | add id bundle =>
    cases hadd : r.add id bundle with
    | error e => simp only [ProfileCall.next, hadd]
    | ok r' =>
      simp only [ProfileCall.next, hadd]
      rw [h.find?_add hc hadd]
      exact if_neg htext

/-- What is found under a proper name after a call: what the call added, or what was found before
and the call neither removed nor replaced. -/
theorem Sound.find?_next_eq_some_iff (h : r.Sound) {c : ProfileCall} (hc : c.id.IsProper)
    (hid : id.IsProper) {p : Profile} : (c.next r).find? id.text = some p ↔
      (p.id = id ∧ c = .add id p.bundle ∧ (r.add id p.bundle).isOk) ∨
        (r.find? id.text = some p ∧ c ≠ .remove id ∧
          ∀ bundle, c = .add id bundle → ¬ (r.add id bundle).isOk) := by
  by_cases hcid : c.id = id
  · cases c with
    | remove id' =>
      obtain rfl : id' = id := hcid
      rw [ProfileCall.next, h.find?_remove]
      simp
    | add id' bundle' =>
      obtain rfl : id' = id := hcid
      cases hadd : r.add id' bundle' with
      | error e =>
        simp only [ProfileCall.next, hadd]
        constructor
        · intro hfound
          refine .inr ⟨hfound, nofun, ?_⟩
          rintro bundle ⟨⟩ hok
          rw [hadd] at hok
          cases hok
        · rintro (⟨-, ⟨⟩, hok⟩ | ⟨hfound, -⟩)
          · rw [hadd] at hok
            cases hok
          · exact hfound
      | ok r' =>
        simp only [ProfileCall.next, hadd]
        rw [h.find?_add hid hadd, if_pos rfl, Option.some.injEq]
        constructor
        · rintro rfl
          exact .inl ⟨rfl, rfl, by rw [hadd]; rfl⟩
        · obtain ⟨pid, pbundle⟩ := p
          rintro (⟨hp, ⟨⟩, -⟩ | ⟨-, -, hlast⟩)
          · cases hp
            rfl
          · exact absurd (by rw [hadd]; rfl) (hlast bundle' rfl)
  · rw [h.find?_next_of_ne hc hid hcid]
    constructor
    · intro hfound
      refine .inr ⟨hfound, ?_, ?_⟩
      · rintro rfl
        exact hcid rfl
      · rintro bundle rfl
        exact absurd rfl hcid
    · rintro (⟨-, rfl, -⟩ | ⟨hfound, -⟩)
      · exact absurd rfl hcid
      · exact hfound

/-- A name is taken, or some point of the bundle is strange, or the registration succeeds; the first
of these that holds decides. -/
theorem add_cases (r : ProfileIndex) (id : ProfileId) (bundle : Bundle) :
    (r.contains id = true ∧ r.add id bundle = .error (.taken id.text)) ∨
      (r.contains id = false ∧ ∃ q ∈ bundle.points, DocumentKind.anyHas q = false ∧
        r.add id bundle = .error (.strangePoint id.text q)) ∨
      (r.contains id = false ∧ (∀ q ∈ bundle.points, DocumentKind.anyHas q = true) ∧
        ∃ r', r.add id bundle = .ok r') := by
  cases hc : r.contains id with
  | true => exact .inl ⟨rfl, if_pos hc⟩
  | false =>
    right
    have hadd : r.add id bundle = (Profile.new id bundle).map fun p =>
        ⟨insertBy (·.id.text) p r.profiles⟩ := if_neg (by simp [hc])
    cases hfind : bundle.points.find? fun q => !DocumentKind.anyHas q with
    | some q =>
      have hq := List.find?_some hfind
      rw [Bool.not_eq_true'] at hq
      refine .inl ⟨rfl, q, List.mem_of_find?_eq_some hfind, hq, ?_⟩
      rw [hadd, Profile.new, hfind]
      rfl
    | none =>
      refine .inr ⟨rfl, by simpa using hfind, ⟨insertBy (·.id.text) ⟨id, bundle⟩ r.profiles⟩, ?_⟩
      rw [hadd, Profile.new, hfind]
      rfl

/-- A registration succeeds exactly if the name is free and all points are known. -/
theorem isOk_add_iff (r : ProfileIndex) (id : ProfileId) (bundle : Bundle) :
    (r.add id bundle).isOk ↔
      r.contains id = false ∧ ∀ q ∈ bundle.points, DocumentKind.anyHas q = true := by
  obtain ⟨hc, hadd⟩ | ⟨hc, q, hq, hstrange, hadd⟩ | ⟨hc, hknown, r', hadd⟩ := r.add_cases id bundle
  · rw [hadd, hc]
    exact ⟨nofun, nofun⟩
  · rw [hadd]
    constructor
    · intro hok
      cases hok
    · rintro ⟨-, hknown⟩
      rw [hknown q hq] at hstrange
      cases hstrange
  · rw [hadd]
    exact ⟨fun _ => ⟨hc, hknown⟩, fun _ => rfl⟩

/-- A registration under a free name that fails reports a strange point. -/
theorem strangePoint_of_add {r : ProfileIndex} {id : ProfileId} {bundle : Bundle}
    {e : ProfileError} (hfree : r.contains id = false) (hadd : r.add id bundle = .error e) :
    ∃ q ∈ bundle.points, DocumentKind.anyHas q = false ∧ e = .strangePoint id.text q := by
  obtain ⟨hc, -⟩ | ⟨-, q, hq, hstrange, hadd'⟩ | ⟨-, -, r', hadd'⟩ := r.add_cases id bundle
  · rw [hfree] at hc
    cases hc
  · rw [hadd] at hadd'
    exact ⟨q, hq, hstrange, Except.error.inj hadd'⟩
  · rw [hadd] at hadd'
    cases hadd'

/-! ## Any calls -/

/-- The index after some calls, with any outcomes. -/
def after (r : ProfileIndex) (calls : List ProfileCall) : ProfileIndex :=
  calls.foldl (fun r c => c.next r) r

@[simp] theorem after_nil (r : ProfileIndex) : r.after [] = r := rfl

@[simp] theorem after_cons (r : ProfileIndex) (c : ProfileCall) (calls : List ProfileCall) :
    r.after (c :: calls) = (c.next r).after calls := rfl

theorem after_append (r : ProfileIndex) (calls later : List ProfileCall) :
    r.after (calls ++ later) = (r.after calls).after later := by
  unfold after
  rw [List.foldl_append]

/-- Calls about proper names keep the stored profiles sound. -/
theorem Sound.after (h : r.Sound) {calls : List ProfileCall} (hcalls : ∀ c ∈ calls, c.id.IsProper) :
    (r.after calls).Sound := by
  induction calls generalizing r with
  | nil => exact h
  | cons c calls ih =>
    obtain ⟨hc, hrest⟩ := List.forall_mem_cons.1 hcalls
    rw [after_cons]
    exact ih (h.next hc) hrest

/-- Every history of calls leaves a sound index. -/
theorem sound_after {calls : List ProfileCall} (hcalls : ∀ c ∈ calls, c.id.IsProper) :
    (empty.after calls).Sound :=
  sound_empty.after hcalls

/-- Calls about other names do not change what is found under a name. -/
theorem Sound.find?_after_of_ne (h : r.Sound) {calls : List ProfileCall}
    (hcalls : ∀ c ∈ calls, c.id.IsProper) (hother : other.IsProper)
    (hne : ∀ c ∈ calls, c.id ≠ other) :
    (r.after calls).find? other.text = r.find? other.text := by
  induction calls generalizing r with
  | nil => rfl
  | cons c calls ih =>
    obtain ⟨hc, hrest⟩ := List.forall_mem_cons.1 hcalls
    obtain ⟨hcne, hrestne⟩ := List.forall_mem_cons.1 hne
    rw [after_cons, ih (h.next hc) hrest hrestne, h.find?_next_of_ne hc hother hcne]

end ProfileIndex

/-! ## What is in force -/

/-- The bundle of the latest registration under a name that succeeded, unless the name was
unregistered since. -/
def InForce (calls : List ProfileCall) (id : ProfileId) (bundle : Bundle) : Prop :=
  ∃ before later, calls = before ++ .add id bundle :: later ∧
    ((ProfileIndex.empty.after before).add id bundle).isOk ∧
    (∀ c ∈ later, c ≠ .remove id) ∧
    ∀ mid bundle' rest, later = mid ++ .add id bundle' :: rest →
      ¬ ((ProfileIndex.empty.after (before ++ .add id bundle :: mid)).add id bundle').isOk

section InForce

variable {calls : List ProfileCall} {c : ProfileCall} {id : ProfileId} {bundle : Bundle}

theorem not_inForce_nil : ¬ InForce [] id bundle := by
  rintro ⟨before, later, hcalls, -⟩
  simp at hcalls

/-- After one more call a bundle is in force if that call added it, or if it was in force and the
call neither removed its name nor added another under it. -/
theorem inForce_append : InForce (calls ++ [c]) id bundle ↔
    (c = .add id bundle ∧ ((ProfileIndex.empty.after calls).add id bundle).isOk) ∨
      (InForce calls id bundle ∧ c ≠ .remove id ∧
        ∀ bundle', c = .add id bundle' →
          ¬ ((ProfileIndex.empty.after calls).add id bundle').isOk) := by
  constructor
  · rintro ⟨before, later, hcalls, hok, hremove, hadd⟩
    rcases List.eq_nil_or_concat later with rfl | ⟨later, x, rfl⟩
    · obtain ⟨rfl, hlast⟩ := List.append_inj' hcalls rfl
      exact .inl ⟨List.singleton_inj.1 hlast, hok⟩
    · rw [List.concat_eq_append, ← List.cons_append, ← List.append_assoc] at hcalls
      obtain ⟨rfl, hlast⟩ := List.append_inj' hcalls rfl
      obtain rfl := List.singleton_inj.1 hlast
      rw [List.concat_eq_append] at hremove hadd
      refine .inr ⟨⟨before, later, rfl, hok, ?_, ?_⟩, hremove c (by simp), ?_⟩
      · intro c' hc'
        exact hremove c' (List.mem_append_left _ hc')
      · intro mid bundle' rest hsplit
        exact hadd mid bundle' (rest ++ [c]) (by rw [hsplit]; simp)
      · rintro bundle' rfl
        exact hadd later bundle' [] rfl
  · rintro (⟨rfl, hok⟩ | ⟨⟨before, later, rfl, hok, hremove, hadd⟩, hne, hlast⟩)
    · exact ⟨calls, [], rfl, hok, List.forall_mem_nil _, fun mid _ rest hsplit => by simp at hsplit⟩
    · refine ⟨before, later ++ [c], by simp, hok, ?_, fun mid bundle' rest hsplit => ?_⟩
      · intro c' hc'
        rcases List.mem_append.1 hc' with hc' | hc'
        · exact hremove c' hc'
        · rw [List.mem_singleton.1 hc']
          exact hne
      · rcases List.eq_nil_or_concat rest with rfl | ⟨rest, x, rfl⟩
        · obtain ⟨rfl, hc⟩ := List.append_inj' hsplit rfl
          exact hlast bundle' (List.singleton_inj.1 hc)
        · rw [List.concat_eq_append, ← List.cons_append, ← List.append_assoc] at hsplit
          exact hadd mid bundle' rest (List.append_inj' hsplit rfl).1

/-- What is found under a proper name after some calls is the bundle in force. -/
theorem ProfileIndex.find?_after_eq_some_iff (hcalls : ∀ c ∈ calls, c.id.IsProper)
    (hid : id.IsProper) {p : Profile} : (empty.after calls).find? id.text = some p ↔
      p.id = id ∧ InForce calls id p.bundle := by
  induction calls using List.reverseRecOn with
  | nil =>
    constructor
    · intro hfound
      cases hfound
    · rintro ⟨-, hforce⟩
      exact absurd hforce not_inForce_nil
  | append_singleton calls c ih =>
    obtain ⟨hbefore, hc⟩ := List.forall_mem_append.1 hcalls
    rw [after_append, after_cons, after_nil, inForce_append,
      (sound_after hbefore).find?_next_eq_some_iff (hc c List.mem_cons_self) hid, ih hbefore,
      and_or_left, and_assoc]

end InForce

/-! ## What is asked about a name

A name is looked up to see whether it is there, to get its profile, and to build a fresh document of
any kind. -/

namespace ProfileIndex

variable {r s : ProfileIndex} {id : ProfileId} {bundle : Bundle}

/-- What is answered about a name that has a bundle. -/
structure Answers (r : ProfileIndex) (id : ProfileId) (bundle : Bundle) : Prop where
  contains : r.contains id = true
  get : r.get id = .ok ⟨id, bundle⟩
  named? : r.named? (some id) = some ⟨id, bundle⟩
  build : ∀ (R : Type) [Buildable R], (r.build (some id) : Except HookRefusal R) =
    (Attachable.attach ⟨bundle, []⟩ Buildable.blank).toExcept.map (Buildable.withProfile id)

/-- What is answered about a name that has none. -/
structure AnswersUnknown (r : ProfileIndex) (id : ProfileId) : Prop where
  contains : r.contains id = false
  get : r.get id = .error (.unknown id.text)
  named? : r.named? (some id) = none
  build : ∀ (R : Type) [Buildable R],
    (r.build (some id) : Except HookRefusal R) = .ok Buildable.blank

/-- Nothing that is asked about a name tells two indexes apart. -/
structure SameAnswers (r s : ProfileIndex) (id : ProfileId) : Prop where
  contains : r.contains id = s.contains id
  get : r.get id = s.get id
  named? : r.named? (some id) = s.named? (some id)
  build : ∀ (R : Type) [Buildable R],
    (r.build (some id) : Except HookRefusal R) = s.build (some id)

theorem answers_of_find? (h : r.find? id.text = some ⟨id, bundle⟩) : r.Answers id bundle where
  contains := by rw [contains, h]; rfl
  get := by rw [get, h]
  named? := h
  build R _ := by
    rw [build, named?_some, h]
    show ((Attachable.attach ⟨bundle, []⟩ (Buildable.blank : R)).toExcept.bind fun root =>
      .ok (Buildable.withProfile id root)) = _
    cases (Attachable.attach ⟨bundle, []⟩ (Buildable.blank : R)).toExcept <;> rfl

theorem answersUnknown_of_find? (h : r.find? id.text = none) : r.AnswersUnknown id where
  contains := by rw [contains, h]; rfl
  get := by rw [get, h]
  named? := h
  build R _ := by rw [build, named?_some, h]

theorem sameAnswers_of_find? (h : r.find? id.text = s.find? id.text) : r.SameAnswers s id where
  contains := by rw [contains, contains, h]
  get := by rw [get, get, h]
  named? := h
  build R _ := by rw [build, build, named?_some, named?_some, h]

/-- A registration that fails leaves every later index as if it had not been tried. -/
theorem after_add_of_error {calls : List ProfileCall} {e : ProfileError}
    (h : (r.after calls).add id bundle = .error e) (later : List ProfileCall) :
    r.after (calls ++ .add id bundle :: later) = r.after (calls ++ later) := by
  rw [after_append, after_append, after_cons]
  simp only [ProfileCall.next, h]

/-- After any calls about proper names, with any outcomes, the index is a map from names to the
bundles in force. -/
theorem faithful_map {calls : List ProfileCall} (hcalls : ∀ c ∈ calls, c.id.IsProper) :
    let r := empty.after calls
    -- Hooks stand at points that some kind of document has.
    (∀ p ∈ r.profiles, ∀ q ∈ p.bundle.points, DocumentKind.anyHas q = true) ∧
    -- A registration succeeds for a free name and known points, reports what is wrong, the name
    -- first, and then leaves no trace.
    (∀ id bundle,
      ((r.add id bundle).isOk ↔
        r.contains id = false ∧ ∀ q ∈ bundle.points, DocumentKind.anyHas q = true) ∧
      (r.contains id = true → r.add id bundle = .error (.taken id.text)) ∧
      (∀ e, r.contains id = false → r.add id bundle = .error e →
        ∃ q ∈ bundle.points, DocumentKind.anyHas q = false ∧ e = .strangePoint id.text q) ∧
      ∀ e, r.add id bundle = .error e → ∀ later,
        empty.after (calls ++ .add id bundle :: later) = empty.after (calls ++ later)) ∧
    -- A name has the bundle in force, and only that.
    (∀ id, id.IsProper →
      (∀ bundle, InForce calls id bundle → r.Answers id bundle) ∧
      ((∀ bundle, ¬ InForce calls id bundle) → r.AnswersUnknown id)) ∧
    -- Calls about other names do not reach it.
    ∀ id others, id.IsProper → (∀ c ∈ others, c.id.IsProper ∧ c.id ≠ id) →
      (empty.after (calls ++ others)).SameAnswers r id := by
  intro r
  have hsound : r.Sound := sound_after hcalls
  refine ⟨hsound.known, fun id bundle => ⟨r.isOk_add_iff id bundle, ?_, ?_, ?_⟩,
    fun id hid => ⟨?_, ?_⟩, ?_⟩
  · intro hc
    exact if_pos hc
  · intro e hc hadd
    exact strangePoint_of_add hc hadd
  · intro e hadd
    exact after_add_of_error hadd
  · intro bundle hforce
    apply answers_of_find?
    exact (find?_after_eq_some_iff hcalls hid).2 ⟨rfl, hforce⟩
  · intro hnone
    apply answersUnknown_of_find?
    apply Option.eq_none_iff_forall_ne_some.2
    intro p hfound
    obtain ⟨-, hforce⟩ := (find?_after_eq_some_iff hcalls hid).1 hfound
    exact hnone p.bundle hforce
  · intro id others hid hothers
    apply sameAnswers_of_find?
    rw [after_append]
    exact hsound.find?_after_of_ne (fun c hc => (hothers c hc).1) hid fun c hc => (hothers c hc).2

/-- One profile named by a URI and one named by an object identifier, the first of them added twice
and then removed. -/
def uriAndOidCalls : List ProfileCall :=
  [.add (.uri ⟨"tag:1.2.3"⟩) ⟨[⟨.comidEntity, .comidEntity, .inert⟩]⟩,
    .add (.uri ⟨"tag:1.2.3"⟩) .empty,
    .add (.oid ⟨[1, 2, 3]⟩) ⟨[⟨.corim, .corim, .inert⟩]⟩,
    .remove (.uri ⟨"tag:1.2.3"⟩)]

/-- The second registration under the URI fails, the removal leaves the object identifier alone, and
a point of no document is refused. -/
theorem faithful_map_uriAndOidCalls :
    let r := empty.after uriAndOidCalls
    (∀ c ∈ uriAndOidCalls, c.id.IsProper) ∧
    r.Answers (.oid ⟨[1, 2, 3]⟩) ⟨[⟨.corim, .corim, .inert⟩]⟩ ∧
    r.AnswersUnknown (.uri ⟨"tag:1.2.3"⟩) ∧
    r.add (.oid ⟨[1, 2, 3]⟩) .empty = .error (.taken "1.2.3") ∧
    ¬ (r.add (.uri ⟨"tag:1.2.3"⟩) ⟨[⟨⟨"elsewhere"⟩, .other ⟨"elsewhere"⟩, .inert⟩]⟩).isOk := by
  intro r
  have hproper : ∀ c ∈ uriAndOidCalls, c.id.IsProper := by
    intro c hc
    simp only [uriAndOidCalls, List.mem_cons, List.not_mem_nil, or_false] at hc
    rcases hc with rfl | rfl | rfl | rfl
    · exact ⟨rfl, by decide⟩
    · exact ⟨rfl, by decide⟩
    · exact ⟨rfl, by decide⟩
    · exact ⟨rfl, by decide⟩
  obtain ⟨-, hadd, hanswers, -⟩ := faithful_map hproper
  have hoid : InForce uriAndOidCalls (.oid ⟨[1, 2, 3]⟩) ⟨[⟨.corim, .corim, .inert⟩]⟩ := by
    refine ⟨uriAndOidCalls.take 2, [.remove (.uri ⟨"tag:1.2.3"⟩)], rfl, by decide, ?_, ?_⟩
    · intro c hc
      rw [List.mem_singleton.1 hc]
      nofun
    · intro mid bundle' rest hsplit
      rcases mid with _ | ⟨c, mid⟩ <;> simp at hsplit
  have hproperUri : (ProfileId.uri ⟨"tag:1.2.3"⟩).IsProper := ⟨rfl, by decide⟩
  have hgone : r.contains (.uri ⟨"tag:1.2.3"⟩) = false := by decide
  have hfound := (hanswers _ ⟨rfl, by decide⟩).1 _ hoid
  refine ⟨hproper, hfound, (hanswers _ hproperUri).2 fun bundle hforce => ?_,
    (hadd _ _).2.1 hfound.contains, fun hok => ?_⟩
  · have hthere := ((hanswers _ hproperUri).1 bundle hforce).contains
    rw [hgone] at hthere
    cases hthere
  · have hknown := ((hadd _ _).1.1 hok).2 ⟨"elsewhere"⟩ (by decide)
    exact absurd hknown (by decide)

end ProfileIndex

end Rim
