import NedCheck.Region
import NedCheck.Tag.Schema
import NedCheck.Text.Location

/-!
# Elements

The element tree of a NED or MSG file. An element carries a value for every attribute of its kind, so attributes can be addressed by name or by position. Its `id` is its identity: diagnostics and members name elements by it, and two elements of equal content stay apart.

Trees are traversed in pre-order. `Element.induction` is the induction principle for statements about all elements of a tree.
-/

namespace NedCheck

/-- The attribute values of an element, one for each attribute of its kind, in schema order. -/
structure Attributes (tag : Tag) where
  values : List String
  complete : values.length = tag.attributes.length

namespace Attributes

variable {tag : Tag}

@[ext] theorem ext {left right : Attributes tag} (h : left.values = right.values) : left = right := by
  cases left
  cases right
  simpa using h

/-- Every attribute at its default; required ones are empty. -/
def initial (tag : Tag) : Attributes tag where
  values := tag.attributes.map AttributeSpec.initial
  complete := List.length_map _

/-- The given values by position: surplus ones are dropped, missing ones take their defaults. -/
def fill (tag : Tag) (values : List String) : Attributes tag where
  values := values.take tag.attributes.length ++ (initial tag).values.drop values.length
  complete := by
    rw [List.length_append, List.length_take, List.length_drop, (initial tag).complete]
    omega

theorem fill_values (attributes : Attributes tag) : fill tag attributes.values = attributes := by
  ext1
  simp [fill, attributes.complete, List.take_of_length_le, (initial tag).complete]

/-- The value of the named attribute; empty if the kind has no such attribute. -/
def get (attributes : Attributes tag) (name : String) : String :=
  ((tag.attributeIndex? name).bind fun index => attributes.values[index]?).getD ""

def setAt? (attributes : Attributes tag) (index : Nat) (value : String) : Option (Attributes tag) :=
  if index < attributes.values.length then
    some ⟨attributes.values.set index value, by rw [List.length_set, attributes.complete]⟩
  else none

def set? (attributes : Attributes tag) (name value : String) : Option (Attributes tag) :=
  (tag.attributeIndex? name).bind fun index => attributes.setAt? index value

/-- Names with their values, in schema order. -/
def named (attributes : Attributes tag) : List (String × String) :=
  (tag.attributes.map (·.name)).zip attributes.values

end Attributes

structure Element where
  id : Nat
  tag : Tag
  attributes : Attributes tag
  children : List Element
  location : Option String
  region : Region

namespace Element

theorem induction {P : Element → Prop} (step : ∀ e : Element, (∀ child ∈ e.children, P child) → P e)
    (e : Element) : P e :=
  e.rec (motive_2 := fun children => ∀ child ∈ children, P child)
    (fun _ _ _ _ _ _ ih => step _ ih)
    (fun _ h => absurd h List.not_mem_nil)
    (fun _ _ ihHead ihTail _ h => (List.mem_cons.1 h).elim (fun h => h ▸ ihHead) (ihTail _))

/-- A childless element with every attribute at its default. -/
def new (tag : Tag) : Element where
  id := 0
  tag := tag
  attributes := .initial tag
  children := []
  location := none
  region := {}

instance : Inhabited Element := ⟨new default⟩

/-! ### Attributes -/

def value (e : Element) (name : String) : String := e.attributes.get name

def valueAt? (e : Element) (index : Nat) : Option String := e.attributes.values[index]?

def setValue? (e : Element) (name value : String) : Option Element :=
  (e.attributes.set? name value).map fun attributes => { e with attributes }

def setValueAt? (e : Element) (index : Nat) (value : String) : Option Element :=
  (e.attributes.setAt? index value).map fun attributes => { e with attributes }

/-- The element with the named attribute set, if its kind has such an attribute. -/
def withValue (e : Element) (name value : String) : Element := (e.setValue? name value).getD e

def name (e : Element) : String := e.value "name"

/-- The direction of a gate; a value that is no direction counts as none given. -/
def gateType (e : Element) : GateType := (GateType.parse? (e.value "type")).getD default

/-- The type of a parameter; a value that is no type counts as none given. -/
def paramType (e : Element) : ParamType := (ParamType.parse? (e.value "type")).getD default

def isVector (e : Element) : Bool := e.value "is-vector" = "true"

/-! ### Children and descendants -/

def firstChild? (e : Element) (tag : Tag) : Option Element := e.children.find? fun child => child.tag = tag

def childrenWithTag (e : Element) (tag : Tag) : List Element :=
  e.children.filter fun child => child.tag = tag

/-- The package a file element declares; empty if it declares none. -/
def packageName (e : Element) : String := ((e.firstChild? .package).map name).getD ""

/-- The import specifications of a file element, in order. -/
def importSpecs (e : Element) : List String :=
  (e.childrenWithTag .importDecl).map (·.value "import-spec")

mutual

/-- The element and everything below it, in pre-order. -/
def descendants : Element → List Element
  | e@⟨_, _, _, children, _, _⟩ => e :: descendantsAll children

def descendantsAll : List Element → List Element
  | [] => []
  | e :: rest => e.descendants ++ descendantsAll rest

end

theorem descendantsAll_eq_flatMap (children : List Element) :
    descendantsAll children = children.flatMap descendants := by
  induction children with
  | nil => simp [descendantsAll]
  | cons e rest ih => simp [descendantsAll, ih]

theorem descendants_eq (e : Element) : e.descendants = e :: e.children.flatMap descendants := by
  cases e
  simp [descendants, descendantsAll_eq_flatMap]

/-! ### Positions -/

/-- The line to report problems of the element at. -/
def line (e : Element) : Nat :=
  if e.region.isEmpty then (e.location.map Text.lineOfLocation).getD 1 else e.region.startLine

/-- The location as messages about other elements quote it. -/
def describeLocation (e : Element) : String := e.location.getD "<unknown location>"

end Element

end NedCheck
