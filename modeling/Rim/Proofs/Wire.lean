import Rim.Wire
import Rim.Proofs.Cbor.Grammar
import Rim.Proofs.Json.Grammar
import Rim.Proofs.Repeats
/-!
# What becomes of a document

A document is refused for its length, else for its form, else for a repeated key, and else read.
Each outcome comes exactly where it belongs, whatever else is wrong with the document.  The key that
is reported is the first one in document order that its own map has had before.

## Main definitions

* `Classified`: the four outcomes, each with where it belongs.

## Main results

* `classified_readOutcome`: what makes the outcomes of a reader classified.
* `Json.classified_ofBytes`, `Cbor.classified_ofBytes`: those of both forms of documents are.
-/

namespace Rim

section Outcomes

variable {α β : Type} {limit length : Nat}

/-- The outcomes of reading a document of some length.  It stands for at most one thing of type `α`,
which may repeat keys and then has a label to report, and else is read as a value. -/
structure Classified (result : Except WireError β) (limit length : Nat) (document : α → Prop)
    (distinct : α → Prop) (label : α → String → Prop) (value : α → β → Prop) : Prop where
  unique : ∀ x y, document x → document y → x = y
  tooLong : result = .error (.tooLong length limit) ↔ limit < length
  malformed : result = .error .malformed ↔ length ≤ limit ∧ ¬ ∃ x, document x
  repeated : (∃ key, result = .error (.repeatedKey key)) ↔
    length ≤ limit ∧ ∃ x, document x ∧ ¬ distinct x
  reported : ∀ key, result = .error (.repeatedKey key) → ∃ x, document x ∧ label x key
  read : (∃ v, result = .ok v) ↔ length ≤ limit ∧ ∃ x, document x ∧ distinct x
  holds : ∀ v, result = .ok v → ∃ x, document x ∧ distinct x ∧ value x v

/-- Only the values of documents that repeat no keys matter. -/
theorem Classified.imp {result : Except WireError β} {document distinct : α → Prop}
    {label : α → String → Prop} {value value' : α → β → Prop}
    (h : Classified result limit length document distinct label value)
    (himp : ∀ x v, distinct x → value x v → value' x v) :
    Classified result limit length document distinct label value' where
  unique := h.unique
  tooLong := h.tooLong
  malformed := h.malformed
  repeated := h.repeated
  reported := h.reported
  read := h.read
  holds v hv := by
    obtain ⟨x, hx, hdistinct, hvalue⟩ := h.holds v hv
    exact ⟨x, hx, hdistinct, himp x v hdistinct hvalue⟩

/-- The outcome of reading a document that has been parsed, its first repeated key and its value. -/
def readOutcome (limit length : Nat) (parsed : Option α) (repeated? : α → Option String)
    (finish : α → β) : Except WireError β :=
  if limit < length then .error (.tooLong length limit)
  else
    match parsed with
    | none => .error .malformed
    | some x =>
      match repeated? x with
      | some key => .error (.repeatedKey key)
      | none => .ok (finish x)

/-- Outcomes are classified if parsing, the search for repeated keys and the value are
understood. -/
theorem classified_readOutcome {parsed : Option α} {repeated? : α → Option String} {finish : α → β}
    {document distinct : α → Prop} {label : α → String → Prop} {value : α → β → Prop}
    (hdocument : ∀ x, parsed = some x ↔ document x)
    (hdistinct : ∀ x, repeated? x = none ↔ distinct x)
    (hlabel : ∀ x key, repeated? x = some key → label x key)
    (hvalue : ∀ x, value x (finish x)) :
    Classified (readOutcome limit length parsed repeated? finish) limit length document distinct
      label value := by
  have hunique : ∀ x y, document x → document y → x = y := fun x y hx hy => by
    rw [← hdocument] at hx hy
    exact Option.some.inj (hx.symm.trans hy)
  by_cases hlimit : limit < length
  · have hresult : readOutcome limit length parsed repeated? finish =
        .error (.tooLong length limit) := if_pos hlimit
    have hnot : ¬ length ≤ limit := Nat.not_le.2 hlimit
    rw [hresult]
    refine ⟨hunique, ?_, ?_, ?_, ?_, ?_, ?_⟩ <;> simp [hlimit, hnot]
  have hle : length ≤ limit := Nat.le_of_not_lt hlimit
  cases hparsed : parsed with
  | none =>
    have hnone : ∀ x, ¬ document x := fun x hx => by
      rw [← hdocument, hparsed] at hx
      cases hx
    have hresult : readOutcome limit length none repeated? finish = .error .malformed :=
      if_neg hlimit
    rw [hresult]
    refine ⟨hunique, ?_, ?_, ?_, ?_, ?_, ?_⟩ <;> simp [hle, hnone]
  | some x =>
    have hx : ∀ y, document y ↔ y = x := fun y => by
      rw [← hdocument, hparsed, Option.some_inj, eq_comm]
    cases hrepeated : repeated? x with
    | some key =>
      have hnot : ¬ distinct x := fun h => by
        rw [← hdistinct, hrepeated] at h
        cases h
      have hresult : readOutcome limit length (some x) repeated? finish =
          .error (.repeatedKey key) := by
        simp only [readOutcome, if_neg hlimit, hrepeated]
      rw [hresult]
      refine ⟨hunique, ?_, ?_, ?_, ?_, ?_, ?_⟩ <;> simp [hle, hx, hnot, hlabel x key hrepeated]
    | none =>
      have hyes := (hdistinct x).1 hrepeated
      have hresult : readOutcome limit length (some x) repeated? finish = .ok (finish x) := by
        simp only [readOutcome, if_neg hlimit, hrepeated]
      rw [hresult]
      refine ⟨hunique, ?_, ?_, ?_, ?_, ?_, ?_⟩ <;> simp [hle, hx, hyes, hvalue x]

end Outcomes

namespace Json

/-- The value that some bytes are, if they nest no deeper than the reader goes. -/
def ReadableDocument (bytes : List UInt8) (v : Json) : Prop :=
  Document v bytes ∧ v.depth ≤ nestingBudget

/-- What is reported of a value that repeats names. -/
def Reports (v : Json) (key : String) : Prop :=
  ∃ name, v.keyTree.FirstRepeat name ∧ key = Text.quote name

theorem classified_ofBytes (limit : Nat) (bytes : List UInt8) :
    Classified (ofBytes limit bytes) limit bytes.length (ReadableDocument bytes) IsDistinct Reports
      (fun v w => w = v) := by
  have hstep : ofBytes limit bytes = readOutcome limit bytes.length (parse? bytes)
      (fun v => v.firstRepeat?.map Text.quote) id := by
    unfold ofBytes readOutcome
    cases parse? bytes with
    | none => rfl
    | some v =>
      dsimp only
      cases v.firstRepeat? <;> rfl
  rw [hstep]
  refine classified_readOutcome (fun v => parse?_eq_some_iff) (fun v => ?_) (fun v key h => ?_)
    fun v => rfl
  · rw [Option.map_eq_none_iff]
    exact firstRepeat?_eq_none_iff
  · obtain ⟨name, hname, rfl⟩ := Option.map_eq_some_iff.1 h
    rw [← firstRepeat?_keyTree] at hname
    exact ⟨name, KeyTree.firstRepeat?_eq_some_iff.1 hname, rfl⟩

end Json

namespace Cbor

/-- The item that some bytes are, if they nest no deeper than the reader goes. -/
def ReadableDocument (bytes : List UInt8) (x : Cbor) : Prop :=
  Item x bytes [] ∧ x.depth ≤ nestingBudget

/-- What is reported of an item that repeats keys. -/
def Reports (x : Cbor) (key : String) : Prop :=
  ∃ l, x.keyTree.FirstRepeat l ∧ key = l.message

theorem classified_ofBytes (limit : Nat) (bytes : List UInt8) :
    Classified (ofBytes limit bytes) limit bytes.length (ReadableDocument bytes) IsDistinct Reports
      (fun x v => v = x.ordered) := by
  have hstep : ofBytes limit bytes = readOutcome limit bytes.length (parse? bytes)
      (fun x => x.firstRepeat?.map Label.message) ordered := by
    unfold ofBytes readOutcome
    cases parse? bytes with
    | none => rfl
    | some x =>
      dsimp only
      cases x.firstRepeat? <;> rfl
  rw [hstep]
  refine classified_readOutcome (fun x => parse?_eq_some_iff) (fun x => ?_) (fun x key h => ?_)
    fun x => rfl
  · rw [Option.map_eq_none_iff]
    exact firstRepeat?_eq_none_iff
  · obtain ⟨l, hl, rfl⟩ := Option.map_eq_some_iff.1 h
    rw [← firstRepeat?_keyTree] at hl
    exact ⟨l, KeyTree.firstRepeat?_eq_some_iff.1 hl, rfl⟩

end Cbor

end Rim
