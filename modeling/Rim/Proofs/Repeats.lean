import Mathlib.Data.List.Infix
import Mathlib.Data.List.Nodup
import Rim.Cbor.Keys
import Rim.Json.Basic
/-!
# The first repeated key in document order

The keys of a document are read in the order in which they are written: a key comes before what
stands within its value, and that before the next key.  The search for a repeated key goes through
the maps of a document one inside the other, with what it has seen of each; it finds the first key,
in the order of the whole document, that its own map has had before.

Objects of the text form and maps of the binary form are searched alike, so the search is understood
on the trees of keys that both have.

## Main definitions

* `KeyTree`: the keys of a document, map by map; `Json.keyTree`, `Cbor.keyTree`.
* `KeyTree.occurrences`: all keys in document order, each with the place of its map.
* `KeyTree.FirstRepeat`: a key is the first to be repeated in document order.
* `KeyTree.HasDict`: the maps of a document, at any depth; `Json.HasObject`, `Cbor.HasMap`.
* `Json.IsDistinct`, `Cbor.IsDistinct`: no map of a document repeats a key.

## Main results

* `firstAgain?_eq_some_iff`: the first item of a list that comes again.
* `KeyTree.firstRepeat?_eq_some_iff`, `KeyTree.firstRepeat?_eq_none_iff`: what the search finds.
* `KeyTree.nodup_occurrences_iff`, `Json.firstRepeat?_eq_none_iff`, `Cbor.firstRepeat?_eq_none_iff`:
  nothing is found exactly if no map repeats a key.
-/

namespace Rim

/-! ## Items that come again -/

section Again

variable {α : Type} [DecidableEq α]

/-- The first item of a list that has come before, in the list or among those seen. -/
def firstAgain? (seen : List α) : List α → Option α
  | [] => none
  | a :: rest => if a ∈ seen then some a else firstAgain? (a :: seen) rest

/-- What is repeated first is in the first part, or in the second after the first has been seen. -/
theorem firstAgain?_append (seen l l' : List α) :
    firstAgain? seen (l ++ l') =
      (firstAgain? seen l <|> firstAgain? (l.reverse ++ seen) l') := by
  induction l generalizing seen with
  | nil => rfl
  | cons a l ih =>
    rw [List.cons_append, firstAgain?, firstAgain?]
    by_cases ha : a ∈ seen
    · rw [if_pos ha, if_pos ha]
      rfl
    · rw [if_neg ha, if_neg ha, ih, List.reverse_cons, List.append_assoc, List.singleton_append]

/-- Nothing is repeated in a list without duplicates that was not seen before. -/
theorem firstAgain?_eq_none_iff {seen l : List α} :
    firstAgain? seen l = none ↔ l.Nodup ∧ ∀ a ∈ l, a ∉ seen := by
  induction l generalizing seen with
  | nil => simp [firstAgain?]
  | cons a l ih =>
    rw [firstAgain?]
    by_cases ha : a ∈ seen
    · simp [ha]
    · rw [if_neg ha, ih, List.nodup_cons]
      constructor
      · rintro ⟨hl, hseen⟩
        refine ⟨⟨fun hmem => hseen a hmem List.mem_cons_self, hl⟩,
          List.forall_mem_cons.2 ⟨ha, fun b hb hmem => ?_⟩⟩
        exact hseen b hb (List.mem_cons_of_mem _ hmem)
      · rintro ⟨⟨hfirst, hl⟩, hseen⟩
        refine ⟨hl, fun b hb hmem => ?_⟩
        rcases List.mem_cons.1 hmem with rfl | hmem
        · exact hfirst hb
        · exact hseen b (List.mem_cons_of_mem _ hb) hmem

/-- The item that is found has come before, and nothing has come again before it. -/
theorem firstAgain?_eq_some_iff {l : List α} {a : α} :
    firstAgain? [] l = some a ↔
      ∃ before after, l = before ++ a :: after ∧ before.Nodup ∧ a ∈ before := by
  have hfound : ∀ seen (l : List α), firstAgain? seen l = some a →
      ∃ before after, l = before ++ a :: after ∧ firstAgain? seen before = none ∧
        (a ∈ before ∨ a ∈ seen) := by
    intro seen l h
    induction l generalizing seen with
    | nil => cases h
    | cons b l ih =>
      rw [firstAgain?] at h
      by_cases hb : b ∈ seen
      · rw [if_pos hb] at h
        obtain rfl := Option.some.inj h
        exact ⟨[], l, rfl, rfl, .inr hb⟩
      · rw [if_neg hb] at h
        obtain ⟨before, after, rfl, hnone, hmem⟩ := ih _ h
        refine ⟨b :: before, after, rfl, ?_, ?_⟩
        · rw [firstAgain?, if_neg hb, hnone]
        · rcases hmem with hmem | hmem
          · exact .inl (List.mem_cons_of_mem _ hmem)
          · rcases List.mem_cons.1 hmem with rfl | hmem
            · exact .inl List.mem_cons_self
            · exact .inr hmem
  constructor
  · intro h
    obtain ⟨before, after, rfl, hnone, hmem⟩ := hfound [] l h
    exact ⟨before, after, rfl, (firstAgain?_eq_none_iff.1 hnone).1, by simpa using hmem⟩
  · rintro ⟨before, after, rfl, hnodup, hmem⟩
    have hnone : firstAgain? [] before = none := firstAgain?_eq_none_iff.2 ⟨hnodup, by simp⟩
    rw [firstAgain?_append, hnone, firstAgain?, if_pos (by simpa using hmem)]
    rfl

end Again

/-! ## Trees of keys -/

/-- The keys of a document, map by map; an entry without a key is one whose key is never compared
with another one. -/
inductive KeyTree (κ : Type) where
  | seq (items : List (KeyTree κ))
  | dict (entries : List (Option κ × KeyTree κ))

namespace KeyTree

variable {κ : Type}

/-- A map of a tree, at any depth. -/
inductive HasDict (entries : List (Option κ × KeyTree κ)) : KeyTree κ → Prop where
  | here : HasDict entries (dict entries)
  | item {t : KeyTree κ} {items : List (KeyTree κ)} (ht : t ∈ items) (h : HasDict entries t) :
    HasDict entries (seq items)
  | value {e : Option κ × KeyTree κ} {others : List (Option κ × KeyTree κ)} (he : e ∈ others)
    (h : HasDict entries e.2) : HasDict entries (dict others)

mutual

/-- The keys of a tree in document order, each with the place where its map stands: the numbers of
the items and values that lead to it, the last one first. -/
def occurrences (place : List Nat) : KeyTree κ → List (List Nat × κ)
  | seq items => occurrencesItems place 0 items
  | dict entries => occurrencesEntries place 0 entries

/-- The keys within items, the first of a number. -/
def occurrencesItems (place : List Nat) (i : Nat) : List (KeyTree κ) → List (List Nat × κ)
  | [] => []
  | t :: rest => occurrences (i :: place) t ++ occurrencesItems place (i + 1) rest

/-- The keys of entries and within their values, the first of a number. -/
def occurrencesEntries (place : List Nat) (i : Nat) :
    List (Option κ × KeyTree κ) → List (List Nat × κ)
  | [] => []
  | (some k, t) :: rest =>
    (place, k) :: (occurrences (i :: place) t ++ occurrencesEntries place (i + 1) rest)
  | (none, t) :: rest => occurrences (i :: place) t ++ occurrencesEntries place (i + 1) rest

end

/-- A key is the first one, in document order, that its map has had before. -/
def FirstRepeat (t : KeyTree κ) (k : κ) : Prop :=
  ∃ before place after, t.occurrences [] = before ++ (place, k) :: after ∧ before.Nodup ∧
    (place, k) ∈ before

mutual

/-- The search for a repeated key, map by map. -/
def firstRepeat? [DecidableEq κ] : KeyTree κ → Option κ
  | seq items => firstRepeatItems? items
  | dict entries => firstRepeatEntries? [] entries

/-- The search among items. -/
def firstRepeatItems? [DecidableEq κ] : List (KeyTree κ) → Option κ
  | [] => none
  | t :: rest => t.firstRepeat? <|> firstRepeatItems? rest

/-- The search among the entries of one map, after the keys already seen. -/
def firstRepeatEntries? [DecidableEq κ] (seen : List κ) : List (Option κ × KeyTree κ) → Option κ
  | [] => none
  | (some k, t) :: rest =>
    if k ∈ seen then some k else t.firstRepeat? <|> firstRepeatEntries? (k :: seen) rest
  | (none, t) :: rest => t.firstRepeat? <|> firstRepeatEntries? seen rest

end

/-! ### Places

What stands within an item or a value has the place of that before its own. -/

mutual

/-- A key occurs at a place below that of its tree. -/
theorem suffix_of_mem_occurrences {place : List Nat} {x : List Nat × κ} :
    ∀ t : KeyTree κ, x ∈ occurrences place t → place <:+ x.1
  | seq items, h => by
    rw [occurrences] at h
    obtain ⟨j, -, hj⟩ := suffix_of_mem_occurrencesItems items h
    exact (List.suffix_cons j place).trans hj
  | dict entries, h => by
    rw [occurrences] at h
    rcases suffix_of_mem_occurrencesEntries entries h with hx | ⟨j, -, hj⟩
    · rw [hx]
    · exact (List.suffix_cons j place).trans hj

theorem suffix_of_mem_occurrencesItems {place : List Nat} {i : Nat} {x : List Nat × κ} :
    ∀ items : List (KeyTree κ), x ∈ occurrencesItems place i items →
      ∃ j, i ≤ j ∧ (j :: place) <:+ x.1
  | [], h => by
    rw [occurrencesItems] at h
    cases h
  | t :: rest, h => by
    rw [occurrencesItems] at h
    rcases List.mem_append.1 h with h | h
    · exact ⟨i, Nat.le_refl i, suffix_of_mem_occurrences t h⟩
    · obtain ⟨j, hj, hsuffix⟩ := suffix_of_mem_occurrencesItems rest h
      exact ⟨j, by omega, hsuffix⟩

theorem suffix_of_mem_occurrencesEntries {place : List Nat} {i : Nat} {x : List Nat × κ} :
    ∀ entries : List (Option κ × KeyTree κ), x ∈ occurrencesEntries place i entries →
      x.1 = place ∨ ∃ j, i ≤ j ∧ (j :: place) <:+ x.1
  | [], h => by
    rw [occurrencesEntries] at h
    cases h
  | (some k, t) :: rest, h => by
    rw [occurrencesEntries] at h
    rcases List.mem_cons.1 h with rfl | h
    · exact .inl rfl
    rcases List.mem_append.1 h with h | h
    · exact .inr ⟨i, Nat.le_refl i, suffix_of_mem_occurrences t h⟩
    · rcases suffix_of_mem_occurrencesEntries rest h with hx | ⟨j, hj, hsuffix⟩
      · exact .inl hx
      · exact .inr ⟨j, by omega, hsuffix⟩
  | (none, t) :: rest, h => by
    rw [occurrencesEntries] at h
    rcases List.mem_append.1 h with h | h
    · exact .inr ⟨i, Nat.le_refl i, suffix_of_mem_occurrences t h⟩
    · rcases suffix_of_mem_occurrencesEntries rest h with hx | ⟨j, hj, hsuffix⟩
      · exact .inl hx
      · exact .inr ⟨j, by omega, hsuffix⟩

end

/-- Two items or values of one place have nothing in common. -/
theorem eq_of_suffix_cons {i j : Nat} {place path : List Nat} (hi : (i :: place) <:+ path)
    (hj : (j :: place) <:+ path) : i = j := by
  have heq := (List.suffix_of_suffix_length_le hi hj (by simp)).eq_of_length (by simp)
  exact (List.cons.inj heq).1

theorem not_cons_suffix (i : Nat) (place : List Nat) : ¬ (i :: place) <:+ place := fun h => by
  have hlength := h.length_le
  rw [List.length_cons] at hlength
  omega

/-! ### The search -/

/-- Nothing seen stands within the items of a place from a number on. -/
def Ahead (seen : List (List Nat × κ)) (place : List Nat) (i : Nat) : Prop :=
  ∀ x ∈ seen, ∀ j, i ≤ j → ¬ (j :: place) <:+ x.1

/-- What stands within an item is not within those after it. -/
theorem Ahead.next {seen : List (List Nat × κ)} {place : List Nat} {i : Nat}
    (h : Ahead seen place i) (t : KeyTree κ) :
    Ahead ((occurrences (i :: place) t).reverse ++ seen) place (i + 1) := by
  intro x hx j hj hsuffix
  rcases List.mem_append.1 hx with hx | hx
  · have heq := eq_of_suffix_cons (suffix_of_mem_occurrences t (List.mem_reverse.1 hx)) hsuffix
    omega
  · exact h x hx j (by omega) hsuffix

/-- Within a value there is no key of the map around it. -/
theorem mem_own_iff {seen : List (List Nat × κ)} {place : List Nat} {i : Nat} {t : KeyTree κ}
    {k : κ} : (place, k) ∈ (occurrences (i :: place) t).reverse ++ seen ↔ (place, k) ∈ seen := by
  rw [List.mem_append]
  constructor
  · rintro (h | h)
    · exact absurd (suffix_of_mem_occurrences t (List.mem_reverse.1 h)) (not_cons_suffix i place)
    · exact h
  · exact .inr

section Search

variable [DecidableEq κ]

-- The search knows the keys of each map it is in; the list knows all keys so far.  Where none of
-- these stand ahead, the two agree on what has been seen.
mutual

/-- The first key that occurs again is the first repeated one. -/
theorem map_firstAgain?_occurrences {place : List Nat} {seen : List (List Nat × κ)} :
    ∀ t : KeyTree κ, (∀ x ∈ seen, ¬ place <:+ x.1) →
      (firstAgain? seen (occurrences place t)).map (·.2) = t.firstRepeat?
  | seq items, h => by
    rw [occurrences, firstRepeat?]
    exact map_firstAgain?_occurrencesItems items fun x hx j _ hj =>
      h x hx ((List.suffix_cons j place).trans hj)
  | dict entries, h => by
    rw [occurrences, firstRepeat?]
    refine map_firstAgain?_occurrencesEntries entries (fun x hx j _ hj =>
      h x hx ((List.suffix_cons j place).trans hj)) fun k => ?_
    constructor
    · intro hmem
      exact absurd (List.suffix_refl place) (h _ hmem)
    · intro hmem
      cases hmem

theorem map_firstAgain?_occurrencesItems {place : List Nat} {i : Nat}
    {seen : List (List Nat × κ)} :
    ∀ items : List (KeyTree κ), Ahead seen place i →
      (firstAgain? seen (occurrencesItems place i items)).map (·.2) = firstRepeatItems? items
  | [], _ => by
    rw [occurrencesItems, firstRepeatItems?]
    rfl
  | t :: rest, h => by
    have hfirst := map_firstAgain?_occurrences t fun x hx => h x hx i (Nat.le_refl i)
    have hrest := map_firstAgain?_occurrencesItems rest (h.next t)
    rw [occurrencesItems, firstAgain?_append, firstRepeatItems?, ← hfirst, ← hrest]
    cases firstAgain? seen (occurrences (i :: place) t) <;> rfl

/-- The first key that occurs again among entries is the first repeated one. -/
theorem map_firstAgain?_occurrencesEntries {place : List Nat} {i : Nat}
    {seen : List (List Nat × κ)} {own : List κ} :
    ∀ entries : List (Option κ × KeyTree κ), Ahead seen place i →
      (∀ k, (place, k) ∈ seen ↔ k ∈ own) →
      (firstAgain? seen (occurrencesEntries place i entries)).map (·.2) =
        firstRepeatEntries? own entries
  | [], _, _ => by
    rw [occurrencesEntries, firstRepeatEntries?]
    rfl
  | (some k, t) :: rest, h, hown => by
    rw [occurrencesEntries, firstAgain?, firstRepeatEntries?]
    by_cases hk : k ∈ own
    · rw [if_pos hk, if_pos ((hown k).2 hk)]
      rfl
    · rw [if_neg hk, if_neg fun hmem => hk ((hown k).1 hmem)]
      have hahead : Ahead ((place, k) :: seen) place i := by
        intro x hx j hj
        rcases List.mem_cons.1 hx with rfl | hx
        · exact not_cons_suffix j place
        · exact h x hx j hj
      have hfirst := map_firstAgain?_occurrences t fun x hx => hahead x hx i (Nat.le_refl i)
      have hkeys : ∀ k', (place, k') ∈ (occurrences (i :: place) t).reverse ++ (place, k) :: seen ↔
          k' ∈ k :: own := by
        intro k'
        rw [mem_own_iff, List.mem_cons, List.mem_cons, hown, Prod.mk.injEq]
        simp only [true_and]
      have hrest := map_firstAgain?_occurrencesEntries rest (hahead.next t) hkeys
      rw [firstAgain?_append, ← hfirst, ← hrest]
      cases firstAgain? ((place, k) :: seen) (occurrences (i :: place) t) <;> rfl
  | (none, t) :: rest, h, hown => by
    have hfirst := map_firstAgain?_occurrences t fun x hx => h x hx i (Nat.le_refl i)
    have hrest := map_firstAgain?_occurrencesEntries rest (h.next t)
      fun k => mem_own_iff.trans (hown k)
    rw [occurrencesEntries, firstAgain?_append, firstRepeatEntries?, ← hfirst, ← hrest]
    cases firstAgain? seen (occurrences (i :: place) t) <;> rfl

end

/-- The first repeated key of a tree is the first that occurs again in document order. -/
theorem firstRepeat?_eq (t : KeyTree κ) :
    t.firstRepeat? = (firstAgain? [] (t.occurrences [])).map (·.2) :=
  (map_firstAgain?_occurrences t (List.forall_mem_nil _)).symm

/-- The search finds the first key in document order that its map has had before. -/
theorem firstRepeat?_eq_some_iff {t : KeyTree κ} {k : κ} :
    t.firstRepeat? = some k ↔ t.FirstRepeat k := by
  rw [firstRepeat?_eq, Option.map_eq_some_iff]
  constructor
  · rintro ⟨⟨place, k⟩, h, rfl⟩
    obtain ⟨before, after, hsplit, hbefore⟩ := firstAgain?_eq_some_iff.1 h
    exact ⟨before, place, after, hsplit, hbefore⟩
  · rintro ⟨before, place, after, hsplit, hbefore⟩
    exact ⟨_, firstAgain?_eq_some_iff.2 ⟨before, after, hsplit, hbefore⟩, rfl⟩

/-- No key is repeated if no place and key occur twice. -/
theorem firstRepeat?_eq_none_iff {t : KeyTree κ} :
    t.firstRepeat? = none ↔ (t.occurrences []).Nodup := by
  rw [firstRepeat?_eq, Option.map_eq_none_iff, firstAgain?_eq_none_iff]
  simp

end Search

/-! ### Maps -/

theorem mem_occurrencesEntries_iff {place : List Nat} {k : κ} {i : Nat}
    {entries : List (Option κ × KeyTree κ)} :
    (place, k) ∈ occurrencesEntries place i entries ↔ k ∈ entries.filterMap (·.1) := by
  have hvalue : ∀ i (t : KeyTree κ), (place, k) ∉ occurrences (i :: place) t := fun i t h =>
    not_cons_suffix i place (suffix_of_mem_occurrences t h)
  induction entries generalizing i with
  | nil => simp [occurrencesEntries]
  | cons e rest ih =>
    obtain ⟨_ | k', t⟩ := e
    · simp [occurrencesEntries, hvalue, ih]
    · simp [occurrencesEntries, hvalue, ih]

mutual

/-- No key occurs twice exactly if no map, at any depth, repeats a key. -/
theorem nodup_occurrences_iff {place : List Nat} :
    ∀ t : KeyTree κ, (occurrences place t).Nodup ↔
      ∀ entries, t.HasDict entries → (entries.filterMap (·.1)).Nodup
  | seq items => by
    rw [occurrences, nodup_occurrencesItems_iff items]
    constructor
    · intro h entries hdict
      cases hdict with
      | item ht hdict => exact h _ ht entries hdict
    · intro h t ht entries hdict
      exact h entries (.item ht hdict)
  | dict entries => by
    rw [occurrences, nodup_occurrencesEntries_iff entries]
    constructor
    · rintro ⟨hown, h⟩ others hdict
      cases hdict with
      | here => exact hown
      | value he hdict => exact h _ he others hdict
    · intro h
      exact ⟨h entries .here, fun e he others hdict => h others (.value he hdict)⟩

theorem nodup_occurrencesItems_iff {place : List Nat} {i : Nat} :
    ∀ items : List (KeyTree κ), (occurrencesItems place i items).Nodup ↔
      ∀ t ∈ items, ∀ entries, t.HasDict entries → (entries.filterMap (·.1)).Nodup
  | [] => by simp [occurrencesItems]
  | t :: rest => by
    rw [occurrencesItems, List.nodup_append, nodup_occurrences_iff t,
      nodup_occurrencesItems_iff rest, List.forall_mem_cons]
    refine and_congr_right fun _ => and_iff_left fun x hx y hy heq => ?_
    obtain ⟨j, hj, hsuffix⟩ := suffix_of_mem_occurrencesItems rest hy
    have := eq_of_suffix_cons (heq ▸ suffix_of_mem_occurrences t hx) hsuffix
    omega

theorem nodup_occurrencesEntries_iff {place : List Nat} {i : Nat} :
    ∀ es : List (Option κ × KeyTree κ), (occurrencesEntries place i es).Nodup ↔
      (es.filterMap (·.1)).Nodup ∧
        ∀ e ∈ es, ∀ entries, e.2.HasDict entries → (entries.filterMap (·.1)).Nodup
  | [] => by simp [occurrencesEntries]
  | (key, t) :: rest => by
    have hdisjoint : ∀ x ∈ occurrences (i :: place) t, ∀ y ∈ occurrencesEntries place (i + 1) rest,
        x ≠ y := by
      rintro x hx y hy rfl
      have hsuffix := suffix_of_mem_occurrences t hx
      rcases suffix_of_mem_occurrencesEntries rest hy with hplace | ⟨j, hj, hsuffix'⟩
      · exact not_cons_suffix i place (hplace ▸ hsuffix)
      · have heq := eq_of_suffix_cons hsuffix hsuffix'
        omega
    have hvalues : (occurrences (i :: place) t ++ occurrencesEntries place (i + 1) rest).Nodup ↔
        (rest.filterMap (·.1)).Nodup ∧ ∀ e ∈ (key, t) :: rest, ∀ entries,
          e.2.HasDict entries → (entries.filterMap (·.1)).Nodup := by
      rw [List.nodup_append, nodup_occurrences_iff t, nodup_occurrencesEntries_iff rest,
        List.forall_mem_cons, and_iff_left hdisjoint, and_left_comm]
    cases key with
    | none =>
      rw [occurrencesEntries, hvalues]
      rfl
    | some k =>
      have hnot : (place, k) ∉ occurrences (i :: place) t := fun h =>
        not_cons_suffix i place (suffix_of_mem_occurrences t h)
      rw [occurrencesEntries, List.nodup_cons, hvalues, List.mem_append, or_iff_right hnot,
        mem_occurrencesEntries_iff, ← and_assoc, ← List.nodup_cons]
      rfl

end

end KeyTree

/-! ## The keys of documents

A name counts as it is spelled out.  In the binary form a key that is an array, a map or a tagged
item is never compared, and the maps within it are not searched. -/

namespace Json

mutual

/-- The names of a value, object by object. -/
def keyTree : Json → KeyTree String
  | array items => .seq (itemTrees items)
  | object members => .dict (memberTrees members)
  | _ => .seq []

/-- The names of values. -/
def itemTrees : List Json → List (KeyTree String)
  | [] => []
  | item :: rest => item.keyTree :: itemTrees rest

/-- The names of members, each with those of its value. -/
def memberTrees : List (String × Json) → List (Option String × KeyTree String)
  | [] => []
  | (name, value) :: rest => (some name, value.keyTree) :: memberTrees rest

end

mutual

theorem firstRepeat?_keyTree : ∀ v : Json, v.keyTree.firstRepeat? = v.firstRepeat?
  | array items => by
    rw [keyTree, KeyTree.firstRepeat?, firstRepeat?, firstRepeatItems?_itemTrees items]
  | object members => by
    rw [keyTree, KeyTree.firstRepeat?, firstRepeat?, firstRepeatEntries?_memberTrees members]
  | null | bool _ | int _ | float _ | string _ => by rfl

theorem firstRepeatItems?_itemTrees :
    ∀ items : List Json, KeyTree.firstRepeatItems? (itemTrees items) = firstRepeatItems? items
  | [] => by rw [itemTrees, KeyTree.firstRepeatItems?, firstRepeatItems?]
  | item :: rest => by
    rw [itemTrees, KeyTree.firstRepeatItems?, firstRepeatItems?, firstRepeat?_keyTree item,
      firstRepeatItems?_itemTrees rest]

theorem firstRepeatEntries?_memberTrees {seen : List String} :
    ∀ members : List (String × Json), KeyTree.firstRepeatEntries? seen (memberTrees members) =
      firstRepeatMembers? seen members
  | [] => by rw [memberTrees, KeyTree.firstRepeatEntries?, firstRepeatMembers?]
  | (name, value) :: rest => by
    rw [memberTrees, KeyTree.firstRepeatEntries?, firstRepeatMembers?, firstRepeat?_keyTree value,
      firstRepeatEntries?_memberTrees rest]

end

/-- The objects of a value, at any depth. -/
inductive HasObject (members : List (String × Json)) : Json → Prop where
  | here : HasObject members (.object members)
  | item {v : Json} {items : List Json} (hv : v ∈ items) (h : HasObject members v) :
    HasObject members (.array items)
  | value {m : String × Json} {others : List (String × Json)} (hm : m ∈ others)
    (h : HasObject members m.2) : HasObject members (.object others)

/-- No object repeats a name. -/
def IsDistinct (v : Json) : Prop :=
  ∀ members, HasObject members v → (members.map (·.1)).Nodup

theorem itemTrees_eq_map (items : List Json) : itemTrees items = items.map keyTree := by
  induction items with
  | nil => rfl
  | cons v items ih => exact congrArg _ ih

theorem memberTrees_eq_map (members : List (String × Json)) :
    memberTrees members = members.map fun m => (some m.1, m.2.keyTree) := by
  induction members with
  | nil => rfl
  | cons m members ih => exact congrArg _ ih

theorem hasDict_keyTree_iff {dict : List (Option String × KeyTree String)} {v : Json} :
    v.keyTree.HasDict dict ↔ ∃ members, HasObject members v ∧ dict = memberTrees members := by
  constructor
  · intro h
    generalize ht : v.keyTree = t at h
    induction h generalizing v with
    | here =>
      cases v with
      | object members => exact ⟨members, .here, (KeyTree.dict.inj ht).symm⟩
      | null | bool _ | int _ | float _ | string _ | array _ => cases ht
    | @item t items hmem _ ih =>
      cases v with
      | array values =>
        obtain rfl := KeyTree.seq.inj ht
        rw [itemTrees_eq_map] at hmem
        obtain ⟨v, hv, rfl⟩ := List.mem_map.1 hmem
        obtain ⟨members, hobject, rfl⟩ := ih rfl
        exact ⟨members, .item hv hobject, rfl⟩
      | object _ => cases ht
      | null | bool _ | int _ | float _ | string _ =>
        obtain rfl := KeyTree.seq.inj ht
        cases hmem
    | @value e others hmem _ ih =>
      cases v with
      | object members =>
        obtain rfl := KeyTree.dict.inj ht
        rw [memberTrees_eq_map] at hmem
        obtain ⟨m, hm, rfl⟩ := List.mem_map.1 hmem
        obtain ⟨members', hobject, rfl⟩ := ih rfl
        exact ⟨members', .value hm hobject, rfl⟩
      | null | bool _ | int _ | float _ | string _ | array _ => cases ht
  · rintro ⟨members, h, rfl⟩
    induction h with
    | here => exact .here
    | item hv _ ih =>
      rw [keyTree, itemTrees_eq_map]
      exact .item (List.mem_map_of_mem hv) ih
    | @value m others hm _ ih =>
      rw [keyTree, memberTrees_eq_map others]
      exact .value (List.mem_map_of_mem hm) ih

/-- Nothing is found exactly if no object repeats a name. -/
theorem firstRepeat?_eq_none_iff {v : Json} : v.firstRepeat? = none ↔ v.IsDistinct := by
  have hnames : ∀ members : List (String × Json),
      (memberTrees members).filterMap (·.1) = members.map (·.1) := fun members => by
    rw [memberTrees_eq_map, List.filterMap_map, ← List.filterMap_eq_map]
    rfl
  rw [← firstRepeat?_keyTree, KeyTree.firstRepeat?_eq_none_iff, KeyTree.nodup_occurrences_iff]
  constructor
  · intro h members hobject
    have hnodup := h _ (hasDict_keyTree_iff.2 ⟨members, hobject, rfl⟩)
    rwa [hnames] at hnodup
  · intro h dict hdict
    obtain ⟨members, hobject, rfl⟩ := hasDict_keyTree_iff.1 hdict
    rw [hnames]
    exact h members hobject

end Json

namespace Cbor

mutual

/-- The labels of the simple keys of an item, map by map. -/
def keyTree : Cbor → KeyTree Label
  | array items => .seq (itemTrees items)
  | map entries => .dict (entryTrees entries)
  | tag _ content => .seq [content.keyTree]
  | _ => .seq []

/-- The labels of items. -/
def itemTrees : List Cbor → List (KeyTree Label)
  | [] => []
  | item :: rest => item.keyTree :: itemTrees rest

/-- The labels of entries, each with those of its value. -/
def entryTrees : List (Cbor × Cbor) → List (Option Label × KeyTree Label)
  | [] => []
  | (key, value) :: rest => (key.label?, value.keyTree) :: entryTrees rest

end

mutual

theorem firstRepeat?_keyTree : ∀ v : Cbor, v.keyTree.firstRepeat? = v.firstRepeat?
  | array items => by
    rw [keyTree, KeyTree.firstRepeat?, firstRepeat?, firstRepeatItems?_itemTrees items]
  | map entries => by
    rw [keyTree, KeyTree.firstRepeat?, firstRepeat?, firstRepeatEntries?_entryTrees entries]
  | tag _ content => by
    rw [keyTree, KeyTree.firstRepeat?, firstRepeat?, KeyTree.firstRepeatItems?,
      KeyTree.firstRepeatItems?, firstRepeat?_keyTree content]
    cases content.firstRepeat? <;> rfl
  | null | bool _ | int _ | float _ | bytes _ | text _ => by rfl

theorem firstRepeatItems?_itemTrees :
    ∀ items : List Cbor, KeyTree.firstRepeatItems? (itemTrees items) = firstRepeatItems? items
  | [] => by rw [itemTrees, KeyTree.firstRepeatItems?, firstRepeatItems?]
  | item :: rest => by
    rw [itemTrees, KeyTree.firstRepeatItems?, firstRepeatItems?, firstRepeat?_keyTree item,
      firstRepeatItems?_itemTrees rest]

theorem firstRepeatEntries?_entryTrees {seen : List Label} :
    ∀ entries : List (Cbor × Cbor), KeyTree.firstRepeatEntries? seen (entryTrees entries) =
      firstRepeatEntries? seen entries
  | [] => by rw [entryTrees, KeyTree.firstRepeatEntries?, firstRepeatEntries?]
  | (key, value) :: rest => by
    rw [entryTrees, firstRepeatEntries?]
    cases key.label? with
    | none =>
      rw [KeyTree.firstRepeatEntries?, firstRepeat?_keyTree value,
        firstRepeatEntries?_entryTrees rest]
    | some l =>
      rw [KeyTree.firstRepeatEntries?, firstRepeat?_keyTree value,
        firstRepeatEntries?_entryTrees rest]

end

/-- The maps of an item that are searched for repeated keys: all at any depth but those within
keys. -/
inductive HasMap (entries : List (Cbor × Cbor)) : Cbor → Prop where
  | here : HasMap entries (.map entries)
  | item {x : Cbor} {items : List Cbor} (hx : x ∈ items) (h : HasMap entries x) :
    HasMap entries (.array items)
  | value {e : Cbor × Cbor} {others : List (Cbor × Cbor)} (he : e ∈ others)
    (h : HasMap entries e.2) : HasMap entries (.map others)
  | content {n : UInt64} {x : Cbor} (h : HasMap entries x) : HasMap entries (.tag n x)

/-- No map that is searched repeats the label of a key. -/
def IsDistinct (x : Cbor) : Prop :=
  ∀ entries, HasMap entries x → (entries.filterMap (·.1.label?)).Nodup

theorem itemTrees_eq_map (items : List Cbor) : itemTrees items = items.map keyTree := by
  induction items with
  | nil => rfl
  | cons x items ih => exact congrArg _ ih

theorem entryTrees_eq_map (entries : List (Cbor × Cbor)) :
    entryTrees entries = entries.map fun e => (e.1.label?, e.2.keyTree) := by
  induction entries with
  | nil => rfl
  | cons e entries ih => exact congrArg _ ih

theorem hasDict_keyTree_iff {dict : List (Option Label × KeyTree Label)} {x : Cbor} :
    x.keyTree.HasDict dict ↔ ∃ entries, HasMap entries x ∧ dict = entryTrees entries := by
  constructor
  · intro h
    generalize ht : x.keyTree = t at h
    induction h generalizing x with
    | here =>
      cases x with
      | map entries => exact ⟨entries, .here, (KeyTree.dict.inj ht).symm⟩
      | null | bool _ | int _ | float _ | bytes _ | text _ | array _ | tag _ _ => cases ht
    | @item t items hmem _ ih =>
      cases x with
      | array values =>
        obtain rfl := KeyTree.seq.inj ht
        rw [itemTrees_eq_map] at hmem
        obtain ⟨y, hy, rfl⟩ := List.mem_map.1 hmem
        obtain ⟨entries, hmap, rfl⟩ := ih rfl
        exact ⟨entries, .item hy hmap, rfl⟩
      | tag n content =>
        obtain rfl := KeyTree.seq.inj ht
        obtain rfl := List.mem_singleton.1 hmem
        obtain ⟨entries, hmap, rfl⟩ := ih rfl
        exact ⟨entries, .content hmap, rfl⟩
      | map _ => cases ht
      | null | bool _ | int _ | float _ | bytes _ | text _ =>
        obtain rfl := KeyTree.seq.inj ht
        cases hmem
    | @value e others hmem _ ih =>
      cases x with
      | map entries =>
        obtain rfl := KeyTree.dict.inj ht
        rw [entryTrees_eq_map] at hmem
        obtain ⟨e, he, rfl⟩ := List.mem_map.1 hmem
        obtain ⟨entries', hmap, rfl⟩ := ih rfl
        exact ⟨entries', .value he hmap, rfl⟩
      | null | bool _ | int _ | float _ | bytes _ | text _ | array _ | tag _ _ => cases ht
  · rintro ⟨entries, h, rfl⟩
    induction h with
    | here => exact .here
    | item hx _ ih =>
      rw [keyTree, itemTrees_eq_map]
      exact .item (List.mem_map_of_mem hx) ih
    | @value e others he _ ih =>
      rw [keyTree, entryTrees_eq_map others]
      exact .value (List.mem_map_of_mem he) ih
    | content _ ih => exact .item List.mem_cons_self ih

/-- Nothing is found exactly if no map that is searched repeats a label. -/
theorem firstRepeat?_eq_none_iff {x : Cbor} : x.firstRepeat? = none ↔ x.IsDistinct := by
  have hlabels : ∀ entries : List (Cbor × Cbor),
      (entryTrees entries).filterMap (·.1) = entries.filterMap (·.1.label?) := fun entries => by
    rw [entryTrees_eq_map, List.filterMap_map]
    rfl
  rw [← firstRepeat?_keyTree, KeyTree.firstRepeat?_eq_none_iff, KeyTree.nodup_occurrences_iff]
  constructor
  · intro h entries hmap
    have hnodup := h _ (hasDict_keyTree_iff.2 ⟨entries, hmap, rfl⟩)
    rwa [hlabels] at hnodup
  · intro h dict hdict
    obtain ⟨entries, hmap, rfl⟩ := hasDict_keyTree_iff.1 hdict
    rw [hlabels]
    exact h entries hmap

end Cbor

end Rim
