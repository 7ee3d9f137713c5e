import Mathlib.Data.List.Forall2
import Rim.Proofs.Json.Grammar
import Rim.Wire
/-!
# Text documents are read back

What stands at the front of the text of a value, in either layout and whatever follows it, is the
value itself, its numbers aside: a number is read from its digits, as a double by one rounding and
one scaling, which may give another double or none.  A document is therefore read as the value that
the reader makes of it, unless that value repeats a name.

## Main definitions

* `Json.echo?`: what the reader makes of the text of a value.
* `Json.reread?`: the value that the document of a value holds.

## Main results

* `Json.value_chars`: the text of a value, read from the front.
* `Json.ofBytes_toBytes`: what the document of a value is read as.
* `Json.Plain.reread?_eq`: plain values are read as themselves.
-/

namespace Rim.Json

/-! ## What is read of a value -/

/-- The number that a whole text is. -/
def numberIn? (text : String) : Option Json :=
  match readNumber? text.toList with
  | some (v, []) => some v
  | _ => none

mutual

/-- What the reader makes of the text of a value, if its numbers are in range. -/
def echo? : Json → Option Json
  | int v => numberIn? (toString v)
  | float bits => numberIn? (Double.numberText bits)
  | array items => (echoItems? items).map array
  | object members => (echoMembers? members).map object
  | v => some v

/-- What the reader makes of the text of values. -/
def echoItems? : List Json → Option (List Json)
  | [] => some []
  | x :: rest => x.echo?.bind fun y => (echoItems? rest).map (y :: ·)

/-- What the reader makes of the text of members. -/
def echoMembers? : List (String × Json) → Option (List (String × Json))
  | [] => some []
  | (name, v) :: rest => v.echo?.bind fun w => (echoMembers? rest).map ((name, w) :: ·)

end

/-- The value that the document of a value holds, if its numbers are in range and no name is
repeated. -/
def reread? (v : Json) : Option Json := v.echo?.filter (·.firstRepeat?.isNone)

theorem echoItems?_cons_eq_some_iff {x : Json} {rest ys : List Json} :
    echoItems? (x :: rest) = some ys ↔
      ∃ y more, x.echo? = some y ∧ echoItems? rest = some more ∧ ys = y :: more := by
  rw [echoItems?]
  simp only [Option.bind_eq_some_iff, Option.map_eq_some_iff]
  constructor
  · rintro ⟨y, hy, more, hmore, rfl⟩
    exact ⟨y, more, hy, hmore, rfl⟩
  · rintro ⟨y, more, hy, hmore, rfl⟩
    exact ⟨y, hy, more, hmore, rfl⟩

theorem echoMembers?_cons_eq_some_iff {name : String} {v : Json} {rest ms : List (String × Json)} :
    echoMembers? ((name, v) :: rest) = some ms ↔
      ∃ w more, v.echo? = some w ∧ echoMembers? rest = some more ∧ ms = (name, w) :: more := by
  rw [echoMembers?]
  simp only [Option.bind_eq_some_iff, Option.map_eq_some_iff]
  constructor
  · rintro ⟨w, hw, more, hmore, rfl⟩
    exact ⟨w, more, hw, hmore, rfl⟩
  · rintro ⟨w, more, hw, hmore, rfl⟩
    exact ⟨w, hw, more, hmore, rfl⟩

/-! ## Text read from the front -/

theorem spaces_lineBreak (level : Option Nat) (rest : List Char) :
    Spaces (lineBreak level ++ rest) rest := by
  refine ⟨lineBreak level, fun c hc => ?_, rfl⟩
  cases level with
  | none => cases hc
  | some level =>
    rcases List.mem_cons.1 hc with rfl | hc
    · rfl
    · rw [List.eq_of_mem_replicate hc]
      rfl

@[simp] theorem colon_map (level : Option Nat) (next : Nat → Nat) :
    colon (level.map next) = colon level := by
  cases level <;> rfl

theorem value_numberIn? {text : String} {w : Json} (h : numberIn? text = some w)
    (rest : List Char) : Value w (text.toList ++ rest) rest := by
  unfold numberIn? at h
  split at h
  case h_2 => cases h
  case h_1 v hread =>
    obtain rfl := Option.some.inj h
    obtain ⟨x, htext, hvalue⟩ := exists_of_readNumber? hread
    rw [htext, List.append_nil]
    exact .number x hvalue

theorem depth_of_numberIn? {text : String} {w : Json} (h : numberIn? text = some w) :
    w.depth = 0 := by
  unfold numberIn? at h
  split at h
  case h_2 => cases h
  case h_1 v hread =>
    obtain rfl := Option.some.inj h
    obtain ⟨x, -, hvalue⟩ := exists_of_readNumber? hread
    exact Numeral.depth_of_value? hvalue

theorem value_quoted (s : String) (rest : List Char) :
    Value (.string s) (quoted s ++ rest) rest := by
  obtain ⟨cs, rfl, htext⟩ := readString?_eq_some_iff.1 (readString?_afterQuote s rest)
  exact .string htext

/-! ### Containers

The parts of a container are written and read in one way, whatever they are: every part after the
first comes after a comma, and a comma or a line break ends the one before it. -/

/-- What is written of one thing is, whatever follows it, another thing by a rule. -/
def Spells {α : Type} (rule : α → List Char → List Char → Prop) (write : α → List Char)
    (x y : α) : Prop :=
  ∀ rest, Ends rest → rule y (write x ++ rest) rest

/-- A part after a comma. -/
def afterComma {α : Type} (level : Option Nat) (write : α → List Char) (x : α) : List Char :=
  ',' :: (lineBreak level ++ write x)

theorem separated_append {α : Type} {rule : α → List Char → List Char → Prop}
    {write : α → List Char} {close : Char} (hclose : Closes close) (inner outer : Option Nat)
    {x y : α} {xs ys : List α} (hx : Spells rule write x y)
    (hxs : List.Forall₂ (Spells rule write) xs ys) (rest : List Char) :
    Separated rule (y :: ys) (lineBreak inner ++ (write x ++
      (xs.flatMap (afterComma inner write) ++ (lineBreak outer ++ close :: rest))))
      (close :: rest) := by
  induction hxs generalizing x y with
  | nil =>
    rw [List.flatMap_nil, List.nil_append]
    exact .last (spaces_lineBreak _ _) (hx _ (ends_lineBreak hclose _ _)) (spaces_lineBreak _ _)
  | cons hz _ ih =>
    rw [List.flatMap_cons, afterComma, List.cons_append, List.cons_append, List.append_assoc,
      List.append_assoc]
    exact .next (spaces_lineBreak _ _) (hx _ (ends_cons _ (by decide))) (.refl _) (ih hz)

theorem restItems_eq_flatMap (level : Option Nat) (items : List Json) :
    restItems level items = items.flatMap (afterComma level (chars level)) := by
  induction items with
  | nil => rw [restItems, List.flatMap_nil]
  | cons x rest ih =>
    rw [restItems, List.flatMap_cons, ih, afterComma, List.cons_append, List.append_assoc]

/-- The text of a member at a level. -/
def memberChars (level : Option Nat) (e : String × Json) : List Char :=
  quoted e.1 ++ (colon level ++ chars level e.2)

theorem restMembers_eq_flatMap (level : Option Nat) (members : List (String × Json)) :
    restMembers level members = members.flatMap (afterComma level (memberChars level)) := by
  induction members with
  | nil => rw [restMembers, List.flatMap_nil]
  | cons e rest ih =>
    rw [restMembers, List.flatMap_cons, ih, afterComma, memberChars, List.cons_append]
    simp only [List.append_assoc]

theorem spells_member {name : String} {v w : Json} {level : Option Nat}
    (h : Spells Value (chars level) v w) :
    Spells (MemberOf Value) (memberChars level) (name, v) (name, w) := by
  intro rest hrest
  have hvalue := h rest hrest
  obtain ⟨cs, hcs, hname⟩ := readString?_eq_some_iff.1
    (readString?_afterQuote name (colon level ++ (chars level v ++ rest)))
  have htext : memberChars level (name, v) ++ rest =
      '"' :: (afterQuote name ++ (colon level ++ (chars level v ++ rest))) := by
    simp only [memberChars, quoted, afterQuote, List.cons_append, List.append_assoc]
  rw [htext, hcs]
  rw [hcs] at hname
  cases level with
  | none => exact .named hname (.refl _) (.refl _) hvalue
  | some level => exact .named hname (.refl _) ⟨[' '], by simp [isSpace], rfl⟩ hvalue

mutual

/-- What stands at the front of the text of a value, in either layout. -/
theorem value_chars : ∀ {v w : Json}, v.echo? = some w →
    ∀ level, Spells Value (chars level) v w
  | .null, w, h, _, _, _ => by
    obtain rfl : Json.null = w := by simpa [echo?] using h
    exact .null
  | .bool true, w, h, _, _, _ => by
    obtain rfl : Json.bool true = w := by simpa [echo?] using h
    exact .true
  | .bool false, w, h, _, _, _ => by
    obtain rfl : Json.bool false = w := by simpa [echo?] using h
    exact .false
  | .int v, w, h, _, rest, _ => by
    rw [echo?] at h
    rw [chars]
    exact value_numberIn? h rest
  | .float bits, w, h, _, rest, _ => by
    rw [echo?] at h
    rw [chars]
    exact value_numberIn? h rest
  | .string s, w, h, _, rest, _ => by
    obtain rfl : Json.string s = w := by simpa [echo?] using h
    rw [chars]
    exact value_quoted s rest
  | .array items, w, h, level, rest, _ => by
    rw [echo?] at h
    obtain ⟨ys, hys, rfl⟩ := Option.map_eq_some_iff.1 h
    cases values_chars hys (level.map (· + 1)) with
    | nil => exact .emptyArray (.refl _)
    | cons hx hxs =>
      rw [chars, restItems_eq_flatMap]
      simp only [List.cons_append, List.append_assoc, List.nil_append]
      exact .array (separated_append closes_array _ level hx hxs rest)
  | .object members, w, h, level, rest, _ => by
    rw [echo?] at h
    obtain ⟨ms, hms, rfl⟩ := Option.map_eq_some_iff.1 h
    cases members_chars hms (level.map (· + 1)) with
    | nil => exact .emptyObject (.refl _)
    | @cons e _ _ _ hx hxs =>
      have hseparated :=
        separated_append closes_object (level.map (· + 1)) level hx hxs rest
      rw [memberChars, colon_map] at hseparated
      simp only [List.append_assoc] at hseparated
      rw [chars, restMembers_eq_flatMap]
      simp only [List.cons_append, List.append_assoc, List.nil_append]
      exact .object hseparated

/-- What is written of items spells what is read back of them. -/
theorem values_chars : ∀ {items ys : List Json}, echoItems? items = some ys →
    ∀ level, List.Forall₂ (Spells Value (chars level)) items ys
  | [], ys, h, _ => by
    obtain rfl : [] = ys := by simpa [echoItems?] using h
    exact .nil
  | x :: items, ys, h, level => by
    obtain ⟨y, more, hx, hitems, rfl⟩ := echoItems?_cons_eq_some_iff.1 h
    exact .cons (value_chars hx level) (values_chars hitems level)

theorem members_chars : ∀ {members ms : List (String × Json)}, echoMembers? members = some ms →
    ∀ level, List.Forall₂ (Spells (MemberOf Value) (memberChars level)) members ms
  | [], ms, h, _ => by
    obtain rfl : [] = ms := by simpa [echoMembers?] using h
    exact .nil
  | (name, v) :: members, ms, h, level => by
    obtain ⟨w, more, hv, hmembers, rfl⟩ := echoMembers?_cons_eq_some_iff.1 h
    exact .cons (spells_member (value_chars hv level)) (members_chars hmembers level)

end

/-! ## Documents -/

variable {v w : Json} {limit : Nat}

mutual

/-- What is read back of a value nests as deep. -/
theorem depth_of_echo? : ∀ {v w : Json}, v.echo? = some w → w.depth = v.depth
  | .null, w, h | .bool _, w, h | .string _, w, h => by
    obtain rfl := Option.some.inj ((echo?.eq_def _).symm.trans h)
    rfl
  | .int v, w, h => by
    rw [echo?] at h
    exact depth_of_numberIn? h
  | .float bits, w, h => by
    rw [echo?] at h
    exact depth_of_numberIn? h
  | .array items, w, h => by
    rw [echo?] at h
    obtain ⟨ys, hys, rfl⟩ := Option.map_eq_some_iff.1 h
    rw [depth, depth, depthItems_of_echoItems? hys]
  | .object members, w, h => by
    rw [echo?] at h
    obtain ⟨ms, hms, rfl⟩ := Option.map_eq_some_iff.1 h
    rw [depth, depth, depthMembers_of_echoMembers? hms]

theorem depthItems_of_echoItems? : ∀ {items ys : List Json}, echoItems? items = some ys →
    depthItems ys = depthItems items
  | [], ys, h => by
    obtain rfl : [] = ys := by simpa [echoItems?] using h
    rfl
  | x :: items, ys, h => by
    obtain ⟨y, more, hx, hitems, rfl⟩ := echoItems?_cons_eq_some_iff.1 h
    rw [depthItems, depthItems, depth_of_echo? hx, depthItems_of_echoItems? hitems]

theorem depthMembers_of_echoMembers? : ∀ {members ms : List (String × Json)},
    echoMembers? members = some ms → depthMembers ms = depthMembers members
  | [], ms, h => by
    obtain rfl : [] = ms := by simpa [echoMembers?] using h
    rfl
  | (name, v) :: members, ms, h => by
    obtain ⟨w, more, hv, hmembers, rfl⟩ := echoMembers?_cons_eq_some_iff.1 h
    rw [depthMembers, depthMembers, depth_of_echo? hv, depthMembers_of_echoMembers? hmembers]

end

/-- A value is read back if its numbers are and it repeats no name. -/
theorem reread?_eq_some_iff : v.reread? = some w ↔ v.echo? = some w ∧ w.firstRepeat? = none := by
  rw [reread?, Option.filter_eq_some_iff, Option.isNone_iff_eq_none]

/-- The document of a value is read as the value that the reader makes of it, unless that value
repeats a name. -/
theorem ofBytes_toBytes (pretty : Bool) (h : v.reread? = some w) (hdepth : v.depth ≤ nestingBudget)
    (hlimit : (v.toBytes pretty).length ≤ limit) : ofBytes limit (v.toBytes pretty) = .ok w := by
  obtain ⟨hecho, hrepeat⟩ := reread?_eq_some_iff.1 h
  have hvalue := value_chars hecho (if pretty then some 0 else none) [] ends_nil
  rw [List.append_nil] at hvalue
  have hparse : parse? (v.toBytes pretty) = some w := by
    refine parse?_eq_some_iff.2 ⟨⟨render pretty v, rfl, ?_⟩, ?_⟩
    · unfold render
      rw [String.toList_ofList]
      exact ⟨_, _, .refl _, hvalue, .refl _⟩
    · rw [depth_of_echo? hecho]
      exact hdepth
  unfold ofBytes
  rw [if_neg (by omega), hparse]
  dsimp only
  rw [hrepeat]

/-! ## Containers -/

theorem echoItems?_eq_map {items : List Json} {g : Json → Json}
    (h : ∀ x ∈ items, x.echo? = some (g x)) : echoItems? items = some (items.map g) := by
  induction items with
  | nil => rw [echoItems?, List.map_nil]
  | cons x items ih =>
    obtain ⟨hx, hitems⟩ := List.forall_mem_cons.1 h
    exact echoItems?_cons_eq_some_iff.2 ⟨g x, items.map g, hx, ih hitems, rfl⟩

theorem echoMembers?_eq_map {members : List (String × Json)} {g : Json → Json}
    (h : ∀ e ∈ members, e.2.echo? = some (g e.2)) :
    echoMembers? members = some (members.map fun e => (e.1, g e.2)) := by
  induction members with
  | nil => rw [echoMembers?, List.map_nil]
  | cons e members ih =>
    obtain ⟨he, hmembers⟩ := List.forall_mem_cons.1 h
    exact echoMembers?_cons_eq_some_iff.2 ⟨g e.2, _, he, ih hmembers, rfl⟩

theorem reread?_array {items : List Json} {g : Json → Json}
    (h : ∀ x ∈ items, x.reread? = some (g x)) :
    (array items).reread? = some (array (items.map g)) := by
  refine reread?_eq_some_iff.2 ⟨?_, ?_⟩
  · rw [echo?, echoItems?_eq_map fun x hx => (reread?_eq_some_iff.1 (h x hx)).1, Option.map_some]
  · rw [firstRepeat?]
    refine firstRepeatItems?_eq_none fun y hy => ?_
    obtain ⟨x, hx, rfl⟩ := List.mem_map.1 hy
    exact (reread?_eq_some_iff.1 (h x hx)).2

/-- An object of distinct names is read member by member. -/
theorem reread?_object {members : List (String × Json)} {g : Json → Json}
    (hnames : (members.map (·.1)).Nodup) (h : ∀ e ∈ members, e.2.reread? = some (g e.2)) :
    (object members).reread? = some (object (members.map fun e => (e.1, g e.2))) := by
  refine reread?_eq_some_iff.2 ⟨?_, ?_⟩
  · rw [echo?, echoMembers?_eq_map fun e he => (reread?_eq_some_iff.1 (h e he)).1, Option.map_some]
  · rw [firstRepeat?]
    refine firstRepeatMembers?_eq_none ?_ (by simp) fun e' he' => ?_
    · rwa [List.map_map]
    · obtain ⟨e, he, rfl⟩ := List.mem_map.1 he'
      exact (reread?_eq_some_iff.1 (h e he)).2

/-! ## Plain values -/

/-- The text of a plain value is read as the value itself. -/
theorem Plain.echo?_eq {n : Nat} (h : v.Plain n) : v.echo? = some v := by
  induction h with
  | bool _ | string _ => rw [echo?] <;> simp
  | int low high =>
    have hread := readNumber?_int low high ends_nil
    rw [List.append_nil] at hread
    rw [echo?, numberIn?, hread]
  | array _ ih => rw [echo?, echoItems?_eq_map ih, List.map_id', Option.map_some]
  | object _ _ ih =>
    simp only [echo?, echoMembers?_eq_map (g := id) ih, id_eq, List.map_id', Option.map_some]

/-- A plain value is read back as it is. -/
theorem Plain.reread?_eq {n : Nat} (h : v.Plain n) : v.reread? = some v :=
  reread?_eq_some_iff.2 ⟨h.echo?_eq, h.firstRepeat?_eq_none⟩

end Rim.Json
