import Rim.Proofs.Cbor.Float
import Rim.Proofs.Cbor.Grammar
import Rim.Proofs.Cbor.Plain
/-!
# Binary documents are read back

What stands at the front of the bytes of an item, whatever follows them, is the item itself, its
floats aside: a not-a-number is written without its payload.  A document is therefore read as the
item that the reader makes of it, in order, unless that item repeats a key.

## Main definitions

* `Cbor.echo`: what the reader makes of the bytes of an item.
* `Cbor.reread?`: the value that the document of an item holds.

## Main results

* `Cbor.item_encode`: the bytes of an item, read from the front.
* `Cbor.ofBytes_encode`: what the document of an item is read as.
* `Cbor.Plain.reread?_eq`: plain items are read as themselves.
-/

namespace Rim.Cbor

/-! ## What is read of an item -/

/-- The float that the bytes of a float hold. -/
def echoFloat (bits : UInt64) : UInt64 :=
  match readItem? 0 (encodeFloat bits) with
  | some (float held, _) => held
  | _ => bits

mutual

/-- What the reader makes of the bytes of an item. -/
def echo : Cbor → Cbor
  | float bits => float (echoFloat bits)
  | array items => array (echoItems items)
  | map entries => map (echoEntries entries)
  | tag number content => tag number content.echo
  | item => item

/-- What the reader makes of the bytes of items. -/
def echoItems : List Cbor → List Cbor
  | [] => []
  | item :: rest => item.echo :: echoItems rest

/-- What the reader makes of the bytes of entries. -/
def echoEntries : List (Cbor × Cbor) → List (Cbor × Cbor)
  | [] => []
  | (key, value) :: rest => (key.echo, value.echo) :: echoEntries rest

end

/-- The value that the document of an item holds, unless a key is repeated. -/
def reread? (v : Cbor) : Option Cbor :=
  match v.echo.firstRepeat? with
  | none => some v.echo.ordered
  | some _ => none

theorem echoItems_eq_map (items : List Cbor) : echoItems items = items.map echo := by
  induction items with
  | nil => rw [echoItems, List.map_nil]
  | cons x rest ih => rw [echoItems, List.map_cons, ih]

theorem echoEntries_eq_map (entries : List (Cbor × Cbor)) :
    echoEntries entries = entries.map fun e => (e.1.echo, e.2.echo) := by
  induction entries with
  | nil => rw [echoEntries, List.map_nil]
  | cons e rest ih => rw [echoEntries, List.map_cons, ih]

mutual

/-- What is read back of a value nests as deep. -/
theorem depth_echo : ∀ v : Cbor, v.echo.depth = v.depth
  | .null | .bool _ | .int _ | .bytes _ | .text _ => by rw [echo] <;> simp
  | .float _ => by rw [echo, depth, depth] <;> simp
  | .array items => by rw [echo, depth, depth, depthItems_echo items]
  | .map entries => by rw [echo, depth, depth, depthEntries_echo entries]
  | .tag number content => by rw [echo, depth, depth, depth_echo content]

theorem depthItems_echo : ∀ items : List Cbor, depthItems (echoItems items) = depthItems items
  | [] => by rw [echoItems]
  | x :: rest => by rw [echoItems, depthItems, depthItems, depth_echo x, depthItems_echo rest]

theorem depthEntries_echo :
    ∀ entries : List (Cbor × Cbor), depthEntries (echoEntries entries) = depthEntries entries
  | [] => by rw [echoEntries]
  | (key, value) :: rest => by
    rw [echoEntries, depthEntries, depthEntries, depth_echo key, depth_echo value,
      depthEntries_echo rest]

end

/-! ## Bytes read from the front -/

/-- A head is read back from its bytes. -/
theorem head_encode {major n : Nat} (hn : n < 18446744073709551616) (rest : List UInt8) :
    Head major (.value n) (head major n ++ rest) rest := by
  have hlong : ∀ k < 4, n < 256 ^ (2 ^ k) →
      Head major (.value n) (initial major (24 + k) :: (bigEndian (2 ^ k) n ++ rest)) rest := by
    intro k hk hn
    have hhead : Head major _ _ rest := .long hk (length_bigEndian (2 ^ k) n)
    rwa [beValue_bigEndian, Nat.mod_eq_of_lt hn] at hhead
  unfold head
  split
  case isTrue h => exact .short h
  split
  case isTrue h => exact hlong 0 (by decide) h
  split
  case isTrue h => exact hlong 1 (by decide) h
  split
  case isTrue h => exact hlong 2 (by decide) h
  case isFalse => exact hlong 3 (by decide) hn

/-- The bytes of a float hold a float, whichever of the three widths they have. -/
theorem item_encodeFloat (bits : UInt64) (rest : List UInt8) :
    Item (.float (echoFloat bits)) (encodeFloat bits ++ rest) rest := by
  have hhalf : ∀ n, ∃ held, ∀ rest, Item (.float held) ((0xf9 :: bigEndian 2 n) ++ rest) rest :=
    fun n => ⟨_, fun rest => .half (length_bigEndian 2 n)⟩
  have hsingle : ∀ n, ∃ held, ∀ rest, Item (.float held) ((0xfa :: bigEndian 4 n) ++ rest) rest :=
    fun n => ⟨_, fun rest => .single (length_bigEndian 4 n)⟩
  have hdouble : ∀ n, ∃ held, ∀ rest, Item (.float held) ((0xfb :: bigEndian 8 n) ++ rest) rest :=
    fun n => ⟨_, fun rest => .double (length_bigEndian 8 n)⟩
  obtain ⟨held, hitem⟩ : ∃ held, ∀ rest, Item (.float held) (encodeFloat bits ++ rest) rest := by
    unfold encodeFloat
    split
    · exact hhalf _
    split
    · exact hhalf _
    split
    · exact hhalf _
    · exact hsingle _
    · exact hdouble _
  have hread := (finds 0 _ _ _).2 ⟨hitem [], Nat.le_refl 0⟩
  rw [List.append_nil] at hread
  have hecho : echoFloat bits = held := by
    unfold echoFloat
    rw [hread]
  rw [hecho]
  exact hitem rest

mutual

/-- What stands at the front of the bytes of an item. -/
theorem item_encode : ∀ {v : Cbor}, v.isWritable → v.encode.length < 18446744073709551616 →
    ∀ rest, Item v.echo (v.encode ++ rest) rest
  | .null, _, _, _ => .null
  | .bool false, _, _, _ => .bool false
  | .bool true, _, _, _ => .bool true
  | .int v, hw, _, rest => by
    obtain ⟨low, high⟩ : -18446744073709551616 ≤ v ∧ v < 18446744073709551616 := by
      simpa [isWritable] using hw
    rw [encode, echo] <;> try simp
    by_cases hv : 0 ≤ v
    · have hhead : Head 0 _ (head 0 v.toNat ++ rest) rest := head_encode (by omega) rest
      have hitem := Item.unsigned hhead
      rw [Int.toNat_of_nonneg hv] at hitem
      rwa [if_pos hv]
    · have hhead : Head 1 _ (head 1 (-1 - v).toNat ++ rest) rest := head_encode (by omega) rest
      have hitem := Item.negative hhead
      rw [Int.toNat_of_nonneg (by omega), show -1 - (-1 - v) = v by omega] at hitem
      rwa [if_neg hv]
  | .float bits, _, _, rest => by
    rw [encode, echo]
    exact item_encodeFloat bits rest
  | .bytes v, _, hlen, rest => by
    rw [encode, List.length_append] at hlen
    rw [encode, List.append_assoc, echo] <;> try simp
    exact .bytes (.definite (head_encode (by omega) _))
  | .text v, _, hlen, rest => by
    rw [encode, List.length_append] at hlen
    rw [encode, List.append_assoc, echo] <;> try simp
    exact .text (.definite (head_encode (by omega) _))
  | .array items, hw, hlen, rest => by
    rw [encode, List.length_append] at hlen
    have hwritable : areWritable items := by simpa [isWritable] using hw
    have hitems := items_encode hwritable (by omega) rest
    have hcount := hitems.length_le
    rw [List.length_append] at hcount
    rw [encode, List.append_assoc, echo]
    refine .array ?_ hitems
    rw [echoItems_eq_map, List.length_map] at hcount ⊢
    exact head_encode (by omega) _
  | .map entries, hw, hlen, rest => by
    rw [encode, List.length_append] at hlen
    have hwritable : entriesWritable entries := by simpa [isWritable] using hw
    have hentries := entries_encode hwritable (by omega) rest
    have hcount := hentries.length_le
    rw [List.length_append] at hcount
    rw [encode, List.append_assoc, echo]
    refine .map ?_ hentries
    rw [echoEntries_eq_map, List.length_map] at hcount ⊢
    exact head_encode (by omega) _
  | .tag number content, hw, hlen, rest => by
    rw [encode, List.length_append] at hlen
    have hcontent := item_encode (v := content) (by simpa [isWritable] using hw) (by omega) rest
    have hhead : Head 6 _ (head 6 number.toNat ++ (content.encode ++ rest)) _ :=
      head_encode number.toNat_lt _
    have hitem := Item.tag hhead hcontent
    rw [encode, List.append_assoc, echo]
    rwa [UInt64.ofNat_toNat] at hitem

/-- What stands at the front of the bytes of some items. -/
theorem items_encode : ∀ {items : List Cbor}, areWritable items →
    (encodeItems items).length < 18446744073709551616 →
    ∀ rest, Items (echoItems items) (encodeItems items ++ rest) rest
  | [], _, _, _ => .nil
  | x :: items, hw, hlen, rest => by
    obtain ⟨hx, hitems⟩ := Bool.and_eq_true_iff.1 hw
    rw [encodeItems, List.length_append] at hlen
    rw [encodeItems, List.append_assoc, echoItems]
    exact .cons (item_encode hx (by omega) _) (items_encode hitems (by omega) rest)

/-- What stands at the front of the bytes of some entries. -/
theorem entries_encode : ∀ {entries : List (Cbor × Cbor)}, entriesWritable entries →
    (encodeEntries entries).length < 18446744073709551616 →
    ∀ rest, Entries (echoEntries entries) (encodeEntries entries ++ rest) rest
  | [], _, _, _ => .nil
  | (key, value) :: entries, hw, hlen, rest => by
    obtain ⟨hpair, hentries⟩ := Bool.and_eq_true_iff.1 hw
    obtain ⟨hkey, hvalue⟩ := Bool.and_eq_true_iff.1 hpair
    rw [encodeEntries, List.length_append, List.length_append] at hlen
    rw [encodeEntries, List.append_assoc, List.append_assoc, echoEntries]
    exact .cons (item_encode hkey (by omega) _) (item_encode hvalue (by omega) _)
      (entries_encode hentries (by omega) rest)

end

/-! ## Documents -/

variable {v w : Cbor} {limit : Nat}

/-- The document of an item is read as the item that the reader makes of it, in order, unless that
item repeats a key. -/
theorem ofBytes_encode (hw : v.isWritable) (hdepth : v.depth ≤ nestingBudget)
    (hlen : v.encode.length < 18446744073709551616) (hlimit : v.encode.length ≤ limit) :
    ofBytes limit v.encode = .ok w ↔ v.reread? = some w := by
  have hitem := item_encode hw hlen []
  rw [List.append_nil] at hitem
  have hparse : parse? v.encode = some v.echo :=
    parse?_eq_some_iff.2 ⟨hitem, (depth_echo v).trans_le hdepth⟩
  unfold ofBytes reread?
  rw [if_neg (by omega), hparse]
  dsimp only
  cases v.echo.firstRepeat? with
  | some key => simp
  | none => simp

/-! ## Containers -/

/-- A value is read back in its order unless it repeats a key. -/
theorem reread?_eq_some_iff :
    v.reread? = some w ↔ v.echo.firstRepeat? = none ∧ v.echo.ordered = w := by
  unfold reread?
  cases v.echo.firstRepeat? <;> simp

theorem reread?_array {items : List Cbor} {g : Cbor → Cbor}
    (h : ∀ x ∈ items, x.reread? = some (g x)) :
    (array items).reread? = some (array (items.map g)) := by
  rw [reread?_eq_some_iff, echo, echoItems_eq_map, firstRepeat?, ordered, orderedItems_eq_map,
    List.map_map]
  refine ⟨firstRepeatItems?_eq_none fun y hy => ?_, congrArg array (List.map_congr_left ?_)⟩
  · obtain ⟨x, hx, rfl⟩ := List.mem_map.1 hy
    exact (reread?_eq_some_iff.1 (h x hx)).1
  · intro x hx
    exact (reread?_eq_some_iff.1 (h x hx)).2

theorem echoEntries_keyed (es : List (UInt64 × Cbor)) :
    echoEntries (es.map keyed) = (es.map fun e => (e.1, e.2.echo)).map keyed := by
  rw [echoEntries_eq_map, List.map_map, List.map_map]
  refine List.map_congr_left fun e _ => ?_
  show (Cbor.echo (.int _), e.2.echo) = (_, e.2.echo)
  rw [echo] <;> simp

/-- A map under distinct integer keys is read entry by entry.  The entries are sorted once more, and
come in an order that does not matter. -/
theorem reread?_mapOf {es : List (UInt64 × Cbor)} {g : Cbor → Cbor} (hkeys : (es.map (·.1)).Nodup)
    (h : ∀ e ∈ es, e.2.reread? = some (g e.2)) :
    (mapOf (es.map keyed)).reread? = some (mapOf ((es.map fun e => (e.1, g e.2)).map keyed)) := by
  have hperm : (sortEntries [] es).Perm es := by
    have := perm_sortEntries es []
    rwa [List.append_nil] at this
  have hvalues : ∀ e ∈ sortEntries [] es, e.2.echo.firstRepeat? = none ∧ e.2.echo.ordered = g e.2 :=
    fun e he => reread?_eq_some_iff.1 (h e (hperm.mem_iff.1 he))
  have hsorted : ((sortEntries [] es).map (·.1)).Nodup := (hperm.map (·.1)).nodup_iff.2 hkeys
  rw [mapOf_keyed hkeys, reread?_eq_some_iff, echo, echoEntries_keyed, firstRepeat?, ordered,
    orderedEntries_keyed]
  constructor
  · refine firstRepeatEntries?_keyed ?_ (fun _ _ => List.not_mem_nil) fun e he => ?_
    · rwa [List.map_map]
    · obtain ⟨a, ha, rfl⟩ := List.mem_map.1 he
      exact (hvalues a ha).1
  · have hmap : ((sortEntries [] es).map fun e => (e.1, e.2.echo)).map
        (fun e => (e.1, e.2.ordered)) = (sortEntries [] es).map fun e => (e.1, g e.2) := by
      rw [List.map_map]
      exact List.map_congr_left fun e he => Prod.ext rfl (hvalues e he).2
    rw [hmap]
    refine mapOf_eq_of_perm (hperm.map _) ?_
    rwa [List.map_map]

/-! ## Plain items -/

/-- The bytes of a plain item are read as the item itself. -/
theorem Plain.echo_eq {n : Nat} (h : v.Plain n) : v.echo = v := by
  induction h with
  | bool _ | int _ _ | bytes _ | text _ => rw [echo] <;> simp
  | array _ ih => rw [echo, echoItems_eq_map, List.map_congr_left ih, List.map_id']
  | @map _ es _ _ ih =>
    have hvalues : (es.map fun e => (e.1, e.2.echo)) = es := by
      rw [List.map_congr_left (g := id) fun e he => congrArg (Prod.mk e.1) (ih e he), List.map_id]
    rw [echo, echoEntries_keyed, hvalues]
  | tag _ _ ih => rw [echo, ih]

/-- A plain value is read back as it is. -/
theorem Plain.reread?_eq {n : Nat} (h : v.Plain n) : v.reread? = some v := by
  unfold reread?
  rw [h.echo_eq, h.firstRepeat?_eq_none, h.ordered_eq]

end Rim.Cbor
