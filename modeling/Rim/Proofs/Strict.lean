import Rim.Proofs.Cbor.Canonical
import Rim.Proofs.Wire
/-!
# Strict reading

What becomes of a document of either form, and what its value holds: the members of a text in their
order, the entries of an item with scalar keys in the order of the keys.  Well-formed documents are
those that the reader can hold, so nesting is bounded.

## Main results

* `ofBytes_classified`: documents of both forms are classified.
* `Json.ofBytes_deep_refused`: a well-formed text that nests too deep is refused for its form.
-/

namespace Rim

/-- Documents of both forms are refused for their length, for their form or for a repeated key
exactly where each belongs, and else read.  The value of a text lists the members as they stand, and
that of an item with scalar keys lists the entries in the order of keys. -/
theorem ofBytes_classified (limit : Nat) (bytes : List UInt8) :
    Classified (Json.ofBytes limit bytes) limit bytes.length (Json.ReadableDocument bytes)
      Json.IsDistinct Json.Reports (fun v w => w = v) ∧
    Classified (Cbor.ofBytes limit bytes) limit bytes.length (Cbor.ReadableDocument bytes)
      Cbor.IsDistinct Cbor.Reports (fun x v => x.HasScalarKeys → Cbor.Reordered x v) :=
  ⟨Json.classified_ofBytes limit bytes,
    (Cbor.classified_ofBytes limit bytes).imp fun x _ hdistinct hv hscalars =>
      hv ▸ Cbor.reordered_ordered x hscalars hdistinct⟩

namespace Json

/-- An array in an array, and so on. -/
def nested : Nat → Json
  | 0 => array []
  | n + 1 => array [nested n]

theorem depth_nested (n : Nat) : (nested n).depth = n + 1 := by
  induction n with
  | zero => rfl
  | succ n ih =>
    rw [nested, depth, depthItems, ih]
    exact congrArg (· + 1) (Nat.max_eq_left (Nat.zero_le _))

/-- The text of arrays one in the other. -/
def nestedText (n : Nat) : List Char := List.replicate (n + 1) '[' ++ List.replicate (n + 1) ']'

theorem value_nested (n : Nat) (rest : List Char) :
    Value (nested n) (List.replicate (n + 1) '[' ++ (List.replicate (n + 1) ']' ++ rest)) rest := by
  induction n generalizing rest with
  | zero => exact .emptyArray (.refl _)
  | succ n ih =>
    have hinner := ih (']' :: rest)
    rw [← List.singleton_append, ← List.append_assoc (List.replicate (n + 1) ']'),
      ← List.replicate_succ'] at hinner
    exact .array (.last (.refl _) hinner (.refl _))

/-- A well-formed text that nests deeper than the reader goes is refused for its form. -/
theorem ofBytes_deep_refused : ∃ (v : Json) (text : String), Text v text.toList ∧
    ofBytes (Utf8.encode text).length (Utf8.encode text) = .error .malformed := by
  have htext : Text (nested 127) (String.ofList (nestedText 127)).toList := by
    have hvalue := value_nested 127 []
    rw [List.append_nil] at hvalue
    rw [String.toList_ofList]
    exact ⟨_, [], .refl _, hvalue, .refl _⟩
  refine ⟨nested 127, String.ofList (nestedText 127), htext, ?_⟩
  refine (classified_ofBytes _ _).malformed.2 ⟨Nat.le_refl _, fun ⟨v, hv, hdepth⟩ => ?_⟩
  obtain rfl := hv.unique ⟨_, rfl, htext⟩
  rw [depth_nested] at hdepth
  exact absurd hdepth (by decide)

end Json

end Rim
