import Mathlib.Data.List.Induction
import Rim.Proofs.Document.Manifest
import Rim.Proofs.Document.Parts
/-!
# Sessions whose hooks are never refused

A bundle accepts a hook at a point that its kind declares and that is free.  No point of documents
belongs to two kinds, so in a bundle made by such calls for parts of documents every hook fits the
entities that look for it.  A session that knows such bundles only builds every document, and no
input makes it refuse a hook: each record that it reads is attached its hooks while it is blank, and
once.

## Main definitions

* `BundleCall`: a hook registered for a kind, at its own point or at another one.
* `Bundle.after`: what some calls leave behind, the refused ones included.
* `Bundle.Registered`: bundles made by calls for parts of documents.
* `Error.Ordinary`: an error of a session that is neither a refused hook nor, with calm catalogs, a
  conflict.

## Main results

* `Bundle.fits_after`: bundles made by calls fit.
* `Bundle.contains_after_iff`: a point is taken exactly if a call has succeeded there.
* `Session.decodeComid_ordinary`, `Session.decodeCorim_ordinary`: what reading ends in.
* `Session.hooks_unrefused`: all of it together.
-/

namespace Rim

/-! ## Histories of bundles -/

/-- A hook registered for a kind of entities, at the point of the kind or at a given one. -/
inductive BundleCall where
  | add (k : EntityKind) (hook : Hook k.Body)
  | addAt (k : EntityKind) (p : Point) (hook : Hook k.Body)

namespace BundleCall

/-- The kind of entities the hook is for. -/
def kind : BundleCall → EntityKind
  | add k _ => k
  | addAt k _ _ => k

/-- The point the hook is registered at. -/
def point : BundleCall → Point
  | add k _ => k.point
  | addAt _ p _ => p

/-- What the call answers. -/
def run (m : Bundle) : BundleCall → Except HookRefusal Bundle
  | add k hook => m.add k hook
  | addAt k p hook => m.addAt k p hook

/-- The bundle after the call; a refused call changes nothing. -/
def next (c : BundleCall) (m : Bundle) : Bundle :=
  match c.run m with
  | .ok m' => m'
  | .error _ => m

variable {c : BundleCall} {m : Bundle}

theorem exists_run_eq (c : BundleCall) (m : Bundle) :
    ∃ hook : Hook c.kind.Body, c.run m = m.addAt c.kind c.point hook := by
  cases c with
  | add k hook => exact ⟨hook, rfl⟩
  | addAt k p hook => exact ⟨hook, rfl⟩

/-- A call succeeds exactly if the kind declares the point and the point is free. -/
theorem isOk_run (c : BundleCall) (m : Bundle) :
    (c.run m).isOk = true ↔ c.kind.admits c.point = true ∧ m.contains c.point = false := by
  obtain ⟨hook, hrun⟩ := c.exists_run_eq m
  rw [hrun]
  constructor
  · intro hok
    cases hadd : m.addAt c.kind c.point hook with
    | error e =>
      rw [hadd] at hok
      cases hok
    | ok m' =>
      obtain ⟨hadmits, hfree, -⟩ := Bundle.addAt_eq_ok_iff.1 hadd
      exact ⟨hadmits, hfree⟩
  · rintro ⟨hadmits, hfree⟩
    rw [Bundle.addAt_eq_ok_iff.2 ⟨hadmits, hfree, rfl⟩]
    rfl

/-- A call that succeeds lists its hook, and one that is refused leaves the bundle as it was. -/
theorem next_eq (c : BundleCall) (m : Bundle) :
    ((c.run m).isOk = false ∧ c.next m = m) ∨
      ((c.run m).isOk = true ∧ ∃ hook : Hook c.kind.Body,
        c.next m = ⟨insertBy (·.point.name) ⟨c.point, c.kind, hook⟩ m.entries⟩) := by
  obtain ⟨hook, hrun⟩ := c.exists_run_eq m
  unfold next
  cases hadd : c.run m with
  | error e => exact .inl ⟨rfl, rfl⟩
  | ok m' =>
    rw [hrun] at hadd
    obtain ⟨-, -, rfl⟩ := Bundle.addAt_eq_ok_iff.1 hadd
    exact .inr ⟨rfl, hook, rfl⟩

/-- A call that is refused leaves the bundle as it was. -/
theorem next_of_refused (h : (c.run m).isOk = false) : c.next m = m := by
  rcases c.next_eq m with ⟨-, hnext⟩ | ⟨hok, -⟩
  · exact hnext
  · rw [h] at hok
    cases hok

/-- A call takes its point if it succeeds, and frees none. -/
theorem contains_next (c : BundleCall) (m : Bundle) (p : Point) :
    (c.next m).contains p = true ↔
      m.contains p = true ∨ (c.point = p ∧ (c.run m).isOk = true) := by
  rcases c.next_eq m with ⟨hrefused, hnext⟩ | ⟨hok, hook, hnext⟩
  · rw [hnext, hrefused]
    simp
  · rw [hnext, hok, Bundle.contains_eq_any, any_insertBy, ← Bundle.contains_eq_any,
      Bool.or_eq_true_iff, beq_iff_eq]
    simp only [and_true]
    exact or_comm

/-- Every call leaves a bundle that fits. -/
theorem fits_next (hc : c.kind.OfDocument) (hm : m.Fits) : (c.next m).Fits := by
  rcases c.next_eq m with ⟨-, hnext⟩ | ⟨hok, hook, hnext⟩
  · rw [hnext]
    exact hm
  · rw [hnext]
    intro e he
    rcases mem_insertBy.1 he with rfl | he
    · exact ⟨hc, ((c.isOk_run m).1 hok).1⟩
    · exact hm e he

end BundleCall

namespace Bundle

variable {m : Bundle} {calls : List BundleCall}

/-- What some calls leave behind. -/
def after (m : Bundle) (calls : List BundleCall) : Bundle :=
  calls.foldl (fun m c => c.next m) m

theorem after_concat (m : Bundle) (calls : List BundleCall) (c : BundleCall) :
    m.after (calls ++ [c]) = c.next (m.after calls) := by
  rw [after, List.foldl_append]
  rfl

theorem fits_empty : Bundle.empty.Fits := nofun

theorem Fits.after (hm : m.Fits) (hcalls : ∀ c ∈ calls, c.kind.OfDocument) :
    (m.after calls).Fits := by
  induction calls generalizing m with
  | nil => exact hm
  | cons c rest ih =>
    obtain ⟨hc, hrest⟩ := List.forall_mem_cons.1 hcalls
    exact ih (BundleCall.fits_next hc hm) hrest

/-- Bundles made by calls fit. -/
theorem fits_after (hcalls : ∀ c ∈ calls, c.kind.OfDocument) : (Bundle.empty.after calls).Fits :=
  fits_empty.after hcalls

/-- A point is taken exactly if some call has succeeded there.  By induction from the last call
back, since what a call meets is what those before it left. -/
theorem contains_after_iff {p : Point} :
    (Bundle.empty.after calls).contains p = true ↔
      ∃ before c rest, calls = before ++ c :: rest ∧ c.point = p ∧
        (c.run (Bundle.empty.after before)).isOk = true := by
  induction calls using List.reverseRecOn with
  | nil =>
    constructor
    · intro h
      cases h
    · rintro ⟨before, c, rest, hsplit, -⟩
      cases before <;> cases hsplit
  | append_singleton calls last ih =>
    rw [after_concat, BundleCall.contains_next, ih]
    constructor
    · rintro (⟨before, c, rest, rfl, hpoint, hok⟩ | ⟨hpoint, hok⟩)
      · exact ⟨before, c, rest ++ [last], by simp, hpoint, hok⟩
      · exact ⟨calls, last, [], rfl, hpoint, hok⟩
    · rintro ⟨before, c, rest, hsplit, hpoint, hok⟩
      rcases List.eq_nil_or_concat rest with rfl | ⟨rest, last', rfl⟩
      · obtain ⟨rfl, hlast⟩ := List.append_inj' hsplit rfl
        cases hlast
        exact .inr ⟨hpoint, hok⟩
      · rw [List.concat_eq_append, ← List.cons_append, ← List.append_assoc] at hsplit
        obtain ⟨rfl, -⟩ := List.append_inj' hsplit rfl
        exact .inl ⟨before, c, rest, rfl, hpoint, hok⟩

/-- Bundles made by calls for kinds of entities of documents, the refused calls included. -/
def Registered (b : Bundle) : Prop :=
  ∃ calls : List BundleCall, (∀ c ∈ calls, c.kind.OfDocument) ∧ b = Bundle.empty.after calls

/-- Bundles made of calls fit. -/
theorem Registered.fits {b : Bundle} (h : b.Registered) : b.Fits := by
  obtain ⟨calls, hcalls, rfl⟩ := h
  exact fits_after hcalls

end Bundle

/-- Ending in ordinary errors is handed on from fields to records. -/
def ReadingLaw.ordinary : ReadingLaw where
  toMemberLaw := .ordinary
  record hmembers := RecordShape.ordinary_codec hmembers _
  holding hmembers hattach := RecordShape.ordinary_holding hmembers hattach
  extended hmembers hattach := RecordShape.ordinary_extended hmembers hattach

/-! ## Sessions -/

/-- An error of a session that is not about a hook, neither in itself nor at its root, and if the
catalogs are calm about no conflict of any sort. -/
structure Error.Ordinary (catalogs : Catalogs) (e : Error) : Prop where
  unrefused : ∀ refusal, e ≠ .attach refusal
  root : ∀ cause, e = .record cause → ∀ refusal, cause.innermost ≠ .hook refusal
  calm : catalogs.Calm → e.kind ≠ .registryConflict

theorem Error.ordinary_record {catalogs : Catalogs} {cause : RecordError}
    (h : cause.Ordinary catalogs) : (Error.record cause).Ordinary catalogs where
  unrefused := nofun
  root cause' heq refusal := by
    cases heq
    exact h.unrefused refusal
  calm := h.calm

namespace Session

variable {s : Session} {f : Format} {bytes : List UInt8} {e : Error}

/-- The profiles of a session have bundles that fit. -/
def Fits (s : Session) : Prop := ∀ p ∈ s.profiles.profiles, p.bundle.Fits

theorem Fits.named? (h : s.Fits) {id : Option ProfileId} {p : Profile}
    (hp : s.profiles.named? id = some p) : p.bundle.Fits := by
  cases id with
  | none => cases hp
  | some id => exact h p (List.mem_of_find?_eq_some hp)

/-- The hooks of a session whose profiles fit are fit for decoding. -/
theorem Fits.context (h : s.Fits) (id : Option ProfileId) : (s.context id).Fits := by
  cases hp : s.profiles.named? id with
  | none =>
    rw [context_eq hp]
    exact Context.fits_none
  | some p =>
    rw [context_some hp]
    exact Context.fits_hooks (h.named? hp)

/-- Building a module identifier refuses no hook of such a session. -/
theorem Fits.exists_build_comid (h : s.Fits) (id : Option ProfileId) :
    ∃ d : Comid, s.build id = .ok d := by
  cases hp : s.profiles.named? id with
  | none => exact ⟨_, build_eq hp⟩
  | some p =>
    cases id with
    | none => cases hp
    | some id => exact ⟨_, build_some hp (h.named? hp)⟩

theorem Fits.exists_build_corim (h : s.Fits) (id : Option ProfileId) :
    ∃ d : Corim, s.build id = .ok d := by
  cases hp : s.profiles.named? id with
  | none => exact ⟨_, build_eq hp⟩
  | some p => exact ⟨_, build_corim hp (h.named? hp)⟩

/-- A document that cannot be read from the wire is a fault of its form. -/
theorem ordinary_parse (he : s.parse f bytes = .error e) : e.Ordinary s.catalogs := by
  unfold parse at he
  cases hread : f.ofDocument s.config bytes with
  | ok v =>
    rw [hread] at he
    cases he
  | error cause =>
    rw [hread] at he
    cases he
    apply Error.ordinary_record
    apply RecordError.ordinary_of_kind
    cases cause <;> nofun

theorem ordinary_lift {α : Type} {x : Coded α} (hx : x.Ordinary s.catalogs)
    (he : Error.lift .record x = .error e) : e.Ordinary s.catalogs := by
  cases x with
  | ok a => cases he
  | error cause =>
    cases he
    exact Error.ordinary_record (hx cause rfl)

/-- Reading a module identifier refuses no hook. -/
theorem decodeComid_ordinary (h : s.Fits) {id : Option ProfileId}
    (he : s.decodeComid f id bytes = .error e) : e.Ordinary s.catalogs := by
  obtain ⟨root, hroot⟩ := h.exists_build_comid id
  unfold decodeComid at he
  rw [hroot] at he
  cases hparse : s.parse f bytes with
  | error e' =>
    rw [hparse] at he
    cases he
    exact ordinary_parse hparse
  | ok v =>
    rw [hparse] at he
    exact ordinary_lift (RecordShape.ordinary_decodeAttached
      (fun _ hm => ReadingLaw.ordinary.member_comidShape hm) (h.context id) root v) he

/-- Reading a manifest refuses no hook, neither while its profile is looked for nor after that.  The
first pass has no hooks to attach, and the second those of the profile found. -/
theorem decodeCorim_ordinary (h : s.Fits) (he : s.decodeCorim f bytes = .error e) :
    e.Ordinary s.catalogs := by
  rw [decodeCorim_eq] at he
  cases hparse : s.parse f bytes with
  | error e' =>
    rw [hparse] at he
    cases he
    exact ordinary_parse hparse
  | ok v =>
    rw [hparse, Except.bind] at he
    cases hprofile : Corim.declaredProfile f (s.context none) v with
    | error cause =>
      rw [hprofile] at he
      cases he
      have hpeek : (Corim.declaredProfile f (s.context none) v).Ordinary s.catalogs :=
        (FieldCodec.ordinary_choice .profileId).decodeClaimed (h.context none) _
      exact Error.ordinary_record (hpeek cause hprofile)
    | ok profile =>
      obtain ⟨root, hroot⟩ := h.exists_build_corim profile
      rw [hprofile, Error.lift, Except.bind, hroot, Except.bind] at he
      exact ordinary_lift (RecordShape.ordinary_decodeAttached
        (fun _ hm => ReadingLaw.ordinary.member_corimShape hm) (h.context profile) root v) he

/-- Whatever calls made a bundle, the next one succeeds exactly if the kind declares the point and
no call before has succeeded there, and it changes nothing otherwise.  A session whose profiles have
bundles made by calls for parts of documents builds every document and refuses no hook while it
reads, whatever the input, the profile and the kind of documents; with the standard catalogs no
conflict of any sort ends a reading. -/
theorem hooks_unrefused (s : Session) (hs : ∀ p ∈ s.profiles.profiles, p.bundle.Registered) :
    (∀ (calls : List BundleCall) (c : BundleCall),
      ((c.run (Bundle.empty.after calls)).isOk = true ↔
        c.kind.admits c.point = true ∧ (Bundle.empty.after calls).contains c.point = false) ∧
      ((c.run (Bundle.empty.after calls)).isOk = false →
        Bundle.empty.after (calls ++ [c]) = Bundle.empty.after calls) ∧
      ∀ p, (Bundle.empty.after calls).contains p = true ↔
        ∃ before earlier rest, calls = before ++ earlier :: rest ∧ earlier.point = p ∧
          (earlier.run (Bundle.empty.after before)).isOk = true) ∧
    (∀ id, (∃ d : Comid, s.build id = .ok d) ∧ ∃ d : Corim, s.build id = .ok d) ∧
    (∀ f id bytes e, s.decodeComid f id bytes = .error e → e.Ordinary s.catalogs) ∧
    (∀ f bytes e, s.decodeCorim f bytes = .error e → e.Ordinary s.catalogs) ∧
    Catalogs.standard.Calm := by
  have hfits : s.Fits := fun p hp => (hs p hp).fits
  refine ⟨fun calls c => ⟨c.isOk_run _, fun hrefused => ?_, fun p => ?_⟩, fun id => ?_, ?_, ?_,
    Catalogs.calm_standard⟩
  · rw [Bundle.after_concat]
    exact BundleCall.next_of_refused hrefused
  · exact Bundle.contains_after_iff
  · exact ⟨hfits.exists_build_comid id, hfits.exists_build_corim id⟩
  · intro f id bytes e he
    exact decodeComid_ordinary hfits he
  · intro f bytes e he
    exact decodeCorim_ordinary hfits he

/-- Hooks for manifests and their entities, and then calls that are refused: one at a point that is
taken, and one at a point of another kind. -/
def manifestCalls : List BundleCall :=
  [.add .corim .inert, .addAt .corimEntity .corimEntity .inert, .add .corim .inert,
    .addAt .mval .corim .inert]

/-- A session that knows a profile made by these calls. -/
def manifestSession : Session where
  profiles := ⟨[⟨.oid ⟨[2, 999, 3]⟩, Bundle.empty.after manifestCalls⟩]⟩

theorem hooks_unrefused_manifest :
    (Bundle.empty.after manifestCalls).contains .corim = true ∧
      (∃ d : Corim, manifestSession.build (some (.oid ⟨[2, 999, 3]⟩)) = .ok d) ∧
      ∃ e, manifestSession.decodeCorim .cbor [0] = .error e ∧ e.kind ≠ .registryConflict := by
  have hregistered : ∀ p ∈ manifestSession.profiles.profiles, p.bundle.Registered := by
    intro p hp
    obtain rfl := List.mem_singleton.1 hp
    refine ⟨manifestCalls, fun c hc => ?_, rfl⟩
    simp only [manifestCalls, List.mem_cons, List.not_mem_nil, or_false] at hc
    rcases hc with rfl | rfl | rfl | rfl <;> exact fun _ => by simp [BundleCall.kind]
  obtain ⟨hcalls, hbuild, -, hcorim, hcalm⟩ := hooks_unrefused manifestSession hregistered
  refine ⟨?_, (hbuild _).2, ?_⟩
  · refine ((hcalls manifestCalls (.add .corim .inert)).2.2 .corim).2 ?_
    exact ⟨[], .add .corim .inert, _, rfl, rfl, ((hcalls [] _).1).2 ⟨rfl, rfl⟩⟩
  · cases hread : manifestSession.decodeCorim .cbor [0] with
    | ok c =>
      have hfails : (manifestSession.decodeCorim .cbor [0]).isOk = false := by decide +kernel
      rw [hread] at hfails
      cases hfails
    | error e => exact ⟨e, rfl, (hcorim .cbor [0] e hread).calm hcalm⟩

end Session

end Rim
