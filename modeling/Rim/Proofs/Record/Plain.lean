import Rim.Proofs.Cbor.RoundTrip
import Rim.Proofs.Json.RoundTrip
import Rim.Record.Format
/-!
# Plain raw values

A raw value is plain when it is a plain item or a plain value of its format.  A document of one is
read as that raw value; a document of any other is read as the raw value that it holds, which may
differ in its numbers.  In the binary form lengths must fit their heads, which a limit of 64 bits on
the length of documents sees to.

## Main definitions

* `Format.Plain`: plain raw values of a nesting depth.
* `Format.reread?`: the raw value that a document holds.

## Main results

* `Format.ofDocument_toDocument`: documents are read as the raw values that they hold.
-/

namespace Rim

/-- A raw value that nests at most `n` deep and that its document gives back unchanged. -/
def Format.Plain (n : Nat) : (f : Format) → Raw f → Prop
  | .cbor, v => Cbor.Plain n v
  | .json, v => Json.Plain n v

theorem Format.Plain.mono {n m : Nat} {f : Format} {v : Raw f} (h : f.Plain n v) (hm : n ≤ m) :
    f.Plain m v := by
  cases f with
  | cbor => exact Cbor.Plain.mono h hm
  | json => exact Json.Plain.mono h hm

theorem Format.Plain.depth_le {n : Nat} {f : Format} {v : Raw f} (h : f.Plain n v) :
    f.depth v ≤ n := by
  cases f with
  | cbor => exact Cbor.Plain.depth_le h
  | json => exact Json.Plain.depth_le h

/-! ## Documents -/

/-- The raw value that the document of another one holds, if there is one: numbers may change on the
way, and no document repeats a key. -/
def Format.reread? : (f : Format) → Raw f → Option (Raw f)
  | .cbor, v => Cbor.reread? v
  | .json, v => Json.reread? v

theorem Format.Plain.reread?_eq {n : Nat} {f : Format} {v : Raw f} (h : f.Plain n v) :
    f.reread? v = some v := by
  cases f with
  | cbor => exact Cbor.Plain.reread?_eq h
  | json => exact Json.Plain.reread?_eq h

/-- A document is read as the raw value that it holds, if it is no longer than allowed and nests no
deeper than readers go.  Only integers without a head are refused, and then nothing is written. -/
theorem Format.ofDocument_toDocument {f : Format} {config : Config} {v w : Raw f}
    {bytes : List UInt8} (h : f.reread? v = some w) (hdepth : f.depth v ≤ 127)
    (hconfig : config.maxInputBytes < 18446744073709551616)
    (hbytes : f.toDocument config v = .ok bytes) (hlen : bytes.length ≤ config.maxInputBytes) :
    f.ofDocument config bytes = .ok w := by
  cases f with
  | json =>
    obtain rfl := Except.ok.inj hbytes
    exact Json.ofBytes_toBytes config.prettyJson h hdepth hlen
  | cbor =>
    have hwrite : Cbor.toBytes v = .ok bytes := hbytes
    unfold Cbor.toBytes at hwrite
    split at hwrite
    · obtain rfl := Except.ok.inj hwrite
      exact (Cbor.ofBytes_encode ‹_› hdepth (Nat.lt_of_le_of_lt hlen hconfig) hlen).2 h
    · cases hwrite

end Rim
