import Std.Data.TreeMap
import CallForest.Method.Record
import CallForest.Text.Blank

/-!
# Looking up calls and implementations

Two indices over a list of method records: the calls of a method by its signature, and the methods
of the classes below a class or interface by its name.

## Main definitions

* `CallIndex` — the calls of each method; of several records of one method the last counts;
* `DispatchIndex` — the methods that a call of an abstract method may reach.
-/

namespace CallForest

/-- The calls of each method, by signature. -/
structure CallIndex where
  calls : Std.TreeMap String (List CallSite) := ∅

namespace CallIndex

/-- The index of a list of records. A later record replaces an earlier one. -/
def build (records : List MethodRecord) : CallIndex where
  calls := records.foldl (fun calls r => calls.insert r.signature r.callees) ∅

/-- The calls of a method, none when it is unknown. -/
def callees (index : CallIndex) (signature : String) : List CallSite :=
  index.calls.getD signature []

/-- The number of different signatures. -/
def size (index : CallIndex) : Nat :=
  index.calls.size

end CallIndex

/-- The methods of the classes that extend or implement a name. -/
structure DispatchIndex where
  methods : Std.TreeMap String (List MethodRecord) := ∅

namespace DispatchIndex

/-- A grouping with one more record at the end of the group of `name`. -/
def put (groups : Std.TreeMap String (List MethodRecord)) (name : String) (r : MethodRecord) :
    Std.TreeMap String (List MethodRecord) :=
  groups.insert name (groups.getD name [] ++ [r])

/-- The records of each superclass. A blank superclass makes no group. -/
def bySuper (records : List MethodRecord) : Std.TreeMap String (List MethodRecord) :=
  records.foldl
    (fun groups r =>
      if Text.isBlankText r.owner.superName then groups else put groups r.owner.superName r) ∅

/-- The records of each interface, one entry for each time a class lists it. -/
def byInterface (records : List MethodRecord) : Std.TreeMap String (List MethodRecord) :=
  records.foldl (fun groups r => r.owner.interfaces.foldl (put · · r) groups) ∅

/-- The index of a list of records. A name that is used as an interface anywhere stands for its
implementing classes only. -/
def build (records : List MethodRecord) : DispatchIndex where
  methods := (byInterface records).foldl (fun all name group => all.insert name group)
    (bySuper records)

/-- The methods of the classes below `parent`. -/
def implementations (index : DispatchIndex) (parent : String) : List MethodRecord :=
  index.methods.getD parent []

/-- The methods below `parent` with exactly the given name and parameter types. -/
def resolve (index : DispatchIndex) (parent name : String) (parameters : List String) :
    List MethodRecord :=
  (index.implementations parent).filter fun m => m.name = name ∧ m.parameters = parameters

end DispatchIndex

end CallForest
