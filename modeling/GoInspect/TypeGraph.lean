import GoInspect.GoType
import Std.Data.TreeMap

/-!
# Type graphs

The types of a binary by the address of their descriptors. Several types may share a name; the one
that was inserted first answers to it. A type that was found leads back to its address. Since types
at different addresses may be equal in all that is stored of them, each is a node of its own.
-/

namespace GoInspect

/-- A type in a graph. The number tells it apart from types that are equal to it. -/
structure TypeNode where
  /-- How many types were inserted before this one. -/
  number : Nat
  type : GoType

/-- Types by address, the addresses that names stand for, and the addresses of the types. -/
structure TypeGraph where
  /-- The types by the addresses of their descriptors. -/
  nodes : Std.TreeMap UInt64 TypeNode
  /-- The address at which each name was inserted first. -/
  names : Std.TreeMap Text UInt64
  /-- The address at which each type was inserted, by its number. -/
  places : Std.TreeMap Nat UInt64

namespace TypeGraph

def empty : TypeGraph := ⟨∅, ∅, ∅⟩

instance : Inhabited TypeGraph := ⟨empty⟩

variable (g : TypeGraph)

def node? (address : UInt64) : Option TypeNode := g.nodes[address]?

def find? (address : UInt64) : Option GoType := (g.node? address).map TypeNode.type

def addressOf? (node : TypeNode) : Option UInt64 := g.places[node.number]?

def contains (address : UInt64) : Bool := g.nodes.contains address

def addressOfName? (name : Text) : Option UInt64 :=
  (g.names[name]?).filter fun a => g.contains a

def size : Nat := g.nodes.size

def isEmpty : Bool := g.nodes.isEmpty

/-- The types in the order of their addresses. -/
def toList : List (UInt64 × GoType) :=
  g.nodes.toList.map fun (address, node) => (address, node.type)

/-- The graph with a type at an address, instead of what was there. -/
def insert (address : UInt64) (t : GoType) : TypeGraph where
  nodes := g.nodes.insert address ⟨g.places.size, t⟩
  names := g.names.insertIfNew t.name address
  places := g.places.insert g.places.size address

/-- The graph with every reference resolved to the node at its address, or to nothing where there is
none. -/
def resolved : TypeGraph where
  nodes := g.nodes.map fun _ node => { node with type := node.type.resolve g.contains }
  names := g.names
  places := g.places

def lookup? : TypeHandle GoType → Option GoType
  | .node address => g.find? address
  | .built t => some t

/-- The type that a reference was resolved to. -/
def deref? (r : TypeRef GoType) : Option GoType := r.target.bind g.lookup?

end TypeGraph

end GoInspect
