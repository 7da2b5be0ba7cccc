import CallForest.Method.Descriptor

/-!
# Methods and their call sites

What the call trees are made from: one record per method, with the class it belongs to, the way it
can be entered from outside, and the calls in its body as the instructions name them.

## Main definitions

* `EntryKind` — how a method is entered from outside;
* `ClassInfo` — a class, as far as its methods need it;
* `CallSite` — the target of a call as the instruction names it;
* `MethodRecord` — a method with its call sites.
-/

namespace CallForest

/-- How a method is entered from outside. -/
inductive EntryKind where
  /-- Through a web request. -/
  | http
  /-- As a method of a remote service. -/
  | rpc
  /-- Not at all. -/
  | closed
deriving DecidableEq, Repr, Inhabited

/-- The name of an entry kind in reports. -/
def EntryKind.name : EntryKind → String
  | .http => "HTTP"
  | .rpc => "RPC"
  | .closed => "NONE"

/-- Whether the method is an entry point at all. -/
def EntryKind.isEntry (kind : EntryKind) : Bool :=
  kind ≠ .closed

/-- A class, as far as its methods need it. Names are internal, such as `com/acme/Users`. -/
structure ClassInfo where
  name : String
  /-- Empty when the class extends nothing of interest. -/
  superName : String := ""
  interfaces : List String := []
  /-- The request path that the paths of its methods are relative to. -/
  basePath : String := ""
deriving DecidableEq, Repr, Inhabited

/-- The target of a call as the instruction names it. -/
structure CallSite where
  signature : String
  owner : String
  name : String
  descriptor : String
  parameters : List String
deriving DecidableEq, Repr, Inhabited

/-- The call site that names the given method, if its parameter types can be told apart. -/
def CallSite.of? (owner name descriptor : String) : Option CallSite :=
  (Descriptor.parameters? descriptor).map fun parameters =>
    { signature := methodSignature owner name descriptor, owner, name, descriptor, parameters }

/-- The first call of each signature, leaving out the signatures already `seen`. -/
def CallSite.distinct (seen : List String) : List CallSite → List CallSite
  | [] => []
  | site :: rest =>
    if site.signature ∈ seen then distinct seen rest
    else site :: distinct (site.signature :: seen) rest

/-- A method with the calls in its body. -/
structure MethodRecord where
  signature : String
  name : String
  descriptor : String
  parameters : List String
  owner : ClassInfo
  isAbstract : Bool := false
  entryKind : EntryKind := .closed
  /-- The request path below the path of the class. -/
  mappingPath : String := ""
  /-- The request verbs; none means any. -/
  requestMethods : List String := []
  callees : List CallSite := []
deriving DecidableEq, Repr, Inhabited

/-- A record of the given method without calls, if its parameter types can be told apart. -/
def MethodRecord.of? (owner : ClassInfo) (name descriptor : String) : Option MethodRecord :=
  (Descriptor.parameters? descriptor).map fun parameters =>
    { signature := methodSignature owner.name name descriptor, name, descriptor, parameters,
      owner }

end CallForest
