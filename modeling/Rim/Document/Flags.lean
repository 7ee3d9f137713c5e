import Rim.Hook.Datum
/-!
# Flags of measured values

Ten flags are built in; any other flag belongs to the hook attached to the map, or to nobody.

## Main definitions

* `Hook.getFlag`, `Hook.putFlag`: a flag a hook owns read and written.
* `FlagStore`, `FlagsOver`: what answers for flags, and the built-in flags before a hook that
  answers for the others.
* `FlagsBody`, `FlagsMap`: the built-in flags, and the map with its hook.
* `FlagsMap.get`, `FlagsMap.put`: a flag of the whole space read and written.
-/

namespace Rim

/-- The truth value a datum is, if it is one. -/
def Datum.truth? : Datum → Option Bool
  | .bool b => some b
  | _ => none

namespace Cell

/-- The first field of a name. -/
def find? {V : Type} (name : String) (cells : List (Cell V)) : Option (Cell V) :=
  cells.find? (·.shape.spec.name == name)

/-- The fields with the value of the first one of a name replaced. -/
def put {V : Type} (name : String) (value : Option V) : List (Cell V) → List (Cell V)
  | [] => []
  | c :: rest =>
    if c.shape.spec.name == name then { c with value } :: rest else c :: put name value rest

end Cell

namespace Hook

variable {B : Type}

/-- The fields a hook adds, none without the capability. -/
def cells {V : Type} (h : Hook B V) : List (Cell V) := h.fields.getD []

/-! ## Flags of a hook

A hook answers for the flags it owns and for no others.  If it adds fields, a flag that names one is
that field: reading the one reads the other.  Every other flag is held by the hook itself. -/

/-- The owner's entry of a flag, if the hook owns it. -/
def owner? (h : Hook B) (flag : Int64) : Option OwnedFlag :=
  h.flags.bind fun store => store.owned.find? (·.flag == flag)

/-- The value of an owned flag: that of its field if it lives in one, and else the one held. -/
def valueOf (h : Hook B) (o : OwnedFlag) : Option Bool :=
  match o.field, h.fields with
  | some name, some cells => ((Cell.find? name cells).bind (·.value)).bind Datum.truth?
  | _, _ => h.flags.bind fun store => store.held.lookup o.flag

/-- The value of a flag; none if it is unset or not owned. -/
def getFlag (h : Hook B) (flag : Int64) : Option Bool :=
  (h.owner? flag).bind h.valueOf

/-- The values held with that of one flag replaced. -/
def holdFlag (flag : Int64) (value : Option Bool) (held : List (Int64 × Bool)) :
    List (Int64 × Bool) :=
  let others := held.filter (·.1 != flag)
  match value with
  | some v => (flag, v) :: others
  | none => others

/-- Whether a field can take the value of a flag: any can be unset, and only a truth value be
set. -/
def acceptsFlag (c : Cell Datum) (value : Option Bool) : Bool :=
  value.isNone || c.shape.kind == .bool

/-- The hook with the value of a flag replaced; a flag it does not own and a value its field cannot
take leave it as it was. -/
def putFlag (h : Hook B) (flag : Int64) (value : Option Bool) : Hook B :=
  match h.owner? flag with
  | none => h
  | some o =>
    match o.field, h.fields with
    | some name, some cells =>
      match Cell.find? name cells with
      | some c =>
        if acceptsFlag c value then
          { h with fields := some (Cell.put name (value.map Datum.bool) cells) }
        else h
      | none => h
    | _, _ =>
      { h with flags := h.flags.map fun s => { s with held := holdFlag flag value s.held } }

/-- Whether an owned flag has a value. -/
def holdsFlag (h : Hook B) : Bool :=
  match h.flags with
  | some store => store.owned.any fun o => (h.getFlag o.flag).isSome
  | none => false

/-- What the hook's constraint sees of it. -/
def view (h : Hook B) : HookView where
  fieldsSet := (h.cells.map (·.shape.spec.name)).filter fun name =>
    ((Cell.find? name h.cells).bind (·.value)).isSome
  holdsFlag := h.holdsFlag

end Hook

/-! ## Flags of a slot

A slot without a hook owns no flag. -/

namespace Slot

variable {B : Type}

/-- The value of a flag the slot's hook owns. -/
def getFlag (s : Slot B) (flag : Int64) : Option Bool := s.bind (Hook.getFlag · flag)

/-- The slot with a flag written through to its hook. -/
def putFlag (s : Slot B) (flag : Int64) (value : Option Bool) : Slot B :=
  s.map (Hook.putFlag · flag value)

/-- Whether a flag the slot's hook owns has a value. -/
def holdsFlag (s : Slot B) : Bool := s.any Hook.holdsFlag

/-- The constraint of the slot's hook run against the body it is attached to. -/
def validate (s : Slot B) (body : B) : Except Objection Unit :=
  match s with
  | some h =>
    match h.constraint with
    | some rule => rule body (Hook.view h)
    | none => .ok ()
  | none => .ok ()

end Slot

/-! ## Flags of measured values

The built-in flags come before those of the hook, which therefore never sees their numbers. -/

/-- The built-in flags by number. -/
structure FlagsBody where
  builtin : Vector (Option Bool) 10 := Vector.replicate 10 none
  deriving DecidableEq, Repr, Inhabited

/-- Flags of measured values. -/
structure FlagsMap (V : Type := Datum) extends FlagsBody where
  hook : Slot FlagsBody V := none

namespace FlagsBody

/-- The position of a built-in flag. -/
def index? (flag : Int64) : Option (Fin 10) :=
  if h : 0 ≤ flag.toInt ∧ flag.toInt < 10 then some ⟨flag.toInt.toNat, by omega⟩ else none

/-- The value of a built-in flag; none if it is unset. -/
def flag (b : FlagsBody) (i : Fin 10) : Option Bool := b.builtin.get i

/-- The flags with the value of a built-in one replaced. -/
def withFlag (b : FlagsBody) (i : Fin 10) (value : Option Bool) : FlagsBody :=
  { b with builtin := b.builtin.set i value }

/-- Setting one built-in flag leaves the others. -/
theorem flag_withFlag (b : FlagsBody) (i j : Fin 10) (value : Option Bool) :
    (b.withFlag i value).flag j = if i = j then value else b.flag j := by
  change (b.builtin.set i value)[j.val] = if i = j then value else b.builtin[j.val]
  rw [Vector.getElem_set]
  simp only [Fin.val_inj]

/-- Whether a built-in flag has a value. -/
def holdsFlag (b : FlagsBody) : Bool := b.builtin.any Option.isSome

theorem holdsFlag_eq_false_iff {b : FlagsBody} :
    b.holdsFlag = false ↔ ∀ i, b.flag i = none := by
  unfold holdsFlag flag
  rw [Vector.any_eq_false]
  constructor
  · intro h i
    exact Option.not_isSome_iff_eq_none.1 (h i.val i.isLt)
  · intro h i hi
    have hunset : b.builtin[i] = none := h ⟨i, hi⟩
    simp [hunset]

end FlagsBody

/-! ## Built-in flags before a hook

Which flags are built in is decided by their numbers alone, whatever the hook is. -/

/-- What answers for flags: it reads a flag, writes one or unsets it, and says whether any flag has
a value. -/
class FlagStore (S : Type) where
  get : S → Int64 → Option Bool
  put : S → Int64 → Option Bool → S
  holdsFlag : S → Bool

instance {B : Type} : FlagStore (Hook B) := ⟨Hook.getFlag, Hook.putFlag, Hook.holdsFlag⟩

/-- A slot answers as the hook in it does, and without one for no flag. -/
instance {H : Type} [FlagStore H] : FlagStore (Option H) where
  get s flag := s.bind (FlagStore.get · flag)
  put s flag value := s.map (FlagStore.put · flag value)
  holdsFlag s := s.any FlagStore.holdsFlag

/-- The built-in flags, and the hook of a type that answers for the others. -/
structure FlagsOver (H : Type) extends FlagsBody where
  hook : Option H := none

namespace FlagsOver

variable {H : Type} [FlagStore H]

/-- The value of a flag; none if it is unset or nobody's. -/
def get (m : FlagsOver H) (flag : Int64) : Option Bool :=
  match FlagsBody.index? flag with
  | some i => m.flag i
  | none => FlagStore.get m.hook flag

/-- The map with the value of a flag replaced; nobody's flags are dropped. -/
def put (m : FlagsOver H) (flag : Int64) (value : Option Bool) : FlagsOver H :=
  match FlagsBody.index? flag with
  | some i => { m with toFlagsBody := m.withFlag i value }
  | none => { m with hook := FlagStore.put m.hook flag value }

/-- Whether any flag has a value. -/
def holdsFlag (m : FlagsOver H) : Bool := m.toFlagsBody.holdsFlag || FlagStore.holdsFlag m.hook

instance : FlagStore (FlagsOver H) := ⟨get, put, holdsFlag⟩

end FlagsOver

namespace FlagsMap

instance {V : Type} : Inhabited (FlagsMap V) := ⟨{}⟩

/-- The built-in flags before the hook of the map. -/
def toOver (m : FlagsMap) : FlagsOver (Hook FlagsBody) := ⟨m.toFlagsBody, m.hook⟩

/-- The map of the built-in flags before a hook. -/
def ofOver (m : FlagsOver (Hook FlagsBody)) : FlagsMap := ⟨m.toFlagsBody, m.hook⟩

/-- The value of a flag; none if it is unset or nobody's. -/
def get (m : FlagsMap) (flag : Int64) : Option Bool := m.toOver.get flag

/-- The map with the value of a flag replaced; nobody's flags are dropped. -/
def put (m : FlagsMap) (flag : Int64) (value : Option Bool) : FlagsMap :=
  ofOver (m.toOver.put flag value)

/-- The map with a flag set. -/
def set (m : FlagsMap) (flag : Int64) (value : Bool) : FlagsMap := m.put flag (some value)

/-- The map with a flag unset. -/
def clear (m : FlagsMap) (flag : Int64) : FlagsMap := m.put flag none

/-- Whether any flag has a value. -/
def holdsFlag (m : FlagsMap) : Bool := m.toOver.holdsFlag

/-- Built-in flags are read from the map, all others from the hook. -/
theorem get_eq (m : FlagsMap) (flag : Int64) :
    m.get flag = match FlagsBody.index? flag with
      | some i => m.flag i
      | none => m.hook.getFlag flag := rfl

/-- Built-in flags are written to the map, all others to the hook. -/
theorem put_eq (m : FlagsMap) (flag : Int64) (value : Option Bool) :
    m.put flag value = match FlagsBody.index? flag with
      | some i => { m with toFlagsBody := m.withFlag i value }
      | none => { m with hook := m.hook.putFlag flag value } := by
  unfold put FlagsOver.put
  cases FlagsBody.index? flag <;> rfl

theorem holdsFlag_eq (m : FlagsMap) :
    m.holdsFlag = (m.toFlagsBody.holdsFlag || m.hook.holdsFlag) := rfl

instance : FlagStore FlagsMap := ⟨get, put, holdsFlag⟩

end FlagsMap

end Rim
