import Voxen.Lib.DependencyOrder

/-!
# The service locator

A service is started by its factory, which requests the services it depends on from
the same locator.  `requestService` releases the lock while the factory runs, so it
is modelled as the section before the factory, the calls of the factory and the
section after it.
-/

namespace Voxen.Svc.ServiceLocator

/-- A factory requests the dependencies of its service one after another and then
returns the service or throws. -/
structure Factory (Uid : Type) where
  dependencies : List Uid
  throws : Bool

inductive Error where
  | unresolvedDependency
  | circularDependency
  | factoryFailed
  deriving DecidableEq

/-- An entry of the error log. -/
inductive LogLine (Uid : Type) where
  | circular (id : Uid)
  | noFactory (id : Uid)
  | factoryFailed (id : Uid)
  | dependencyFailed (id : Uid)
  | chain (services : List Uid)

/-- A service object is the number of service objects constructed before it.  Beside
the fields of the class: the services constructed so far, and if the assertion on
the last pending service failed. -/
structure Impl (Uid : Type) where
  activeServices : Uid → Option Nat := fun _ => none
  factoryMap : List (Uid × Factory Uid) := []
  startOrder : List Uid := []
  pendingServices : List Uid := []
  requestServiceFailLogged : Bool := false
  errors : List (LogLine Uid) := []
  constructed : List Uid := []
  mismatched : Bool := false

/-- What the section before the call of the factory finds. -/
inductive Begun (Uid : Type) where
  | active (service : Nat)
  | failed (error : Error)
  | starts (factory : Factory Uid)

variable {Uid : Type} [DecidableEq Uid]

namespace Impl

def findService (impl : Impl Uid) (id : Uid) : Option Nat := impl.activeServices id

def registerServiceFactory (impl : Impl Uid) (id : Uid) (factory : Factory Uid) :
    Option (Impl Uid) :=
  -- `none` is `VoxenErrc::AlreadyRegistered`
  if (impl.factoryMap.lookup id).isSome then none
  else some { impl with factoryMap := impl.factoryMap ++ [(id, factory)] }

def logError (impl : Impl Uid) (line : LogLine Uid) : Impl Uid :=
  { impl with errors := impl.errors ++ [line] }

def errorLogDependencyChain (impl : Impl Uid) : Impl Uid :=
  if impl.pendingServices.length = 1 then impl
  else impl.logError (.chain impl.pendingServices.reverse)

/-- A failure at the end of a dependency chain. -/
def logFailure (impl : Impl Uid) (line : LogLine Uid) : Impl Uid :=
  ({ impl with requestServiceFailLogged := true }.logError line).errorLogDependencyChain

def popPending (impl : Impl Uid) (id : Uid) : Impl Uid :=
  { impl with
    mismatched := impl.mismatched || decide (impl.pendingServices.getLast? ≠ some id)
    pendingServices := impl.pendingServices.dropLast }

/-- The section under the lock before the call of the factory. -/
def beginRequest (impl : Impl Uid) (id : Uid) : Impl Uid × Begun Uid :=
  match impl.activeServices id with
  | some service => (impl, .active service)
  | none =>
    let impl := { impl with requestServiceFailLogged := false }
    if id ∈ impl.pendingServices then
      (impl.logFailure (.circular id), .failed .circularDependency)
    else
      let impl := { impl with pendingServices := impl.pendingServices ++ [id] }
      match impl.factoryMap.lookup id with
      | none => ((impl.logFailure (.noFactory id)).popPending id, .failed .unresolvedDependency)
      | some factory => (impl, .starts factory)

/-- The factory returns a new service. -/
def construct (impl : Impl Uid) (id : Uid) : Impl Uid × Nat :=
  ({ impl with constructed := impl.constructed ++ [id] }, impl.constructed.length)

/-- The section under the lock after the factory returned a service. -/
def emplaceService (impl : Impl Uid) (id : Uid) (service : Nat) : Impl Uid :=
  { impl with
    activeServices :=
      if (impl.activeServices id).isSome then impl.activeServices
      else Function.update impl.activeServices id (some service)
    startOrder := impl.startOrder ++ [id] }.popPending id

/-- The section under the lock after the factory threw. -/
def passException (impl : Impl Uid) (id : Uid) : Impl Uid :=
  (if impl.requestServiceFailLogged then impl.logError (.dependencyFailed id)
  else impl.logFailure (.factoryFailed id)).popPending id

/-- The factory requests the dependencies. -/
def requestAll (request : Impl Uid → Uid → Option (Impl Uid × Except Error Nat)) :
    Impl Uid → List Uid → Option (Impl Uid × Except Error Unit)
  | impl, [] => some (impl, .ok ())
  | impl, dep :: deps =>
    match request impl dep with
    | none => none
    | some (impl, .error error) => some (impl, .error error)
    | some (impl, .ok _) => requestAll request impl deps

/-- The factory is called, and the request ends. -/
def callFactory (request : Impl Uid → Uid → Option (Impl Uid × Except Error Nat))
    (impl : Impl Uid) (id : Uid) (factory : Factory Uid) : Option (Impl Uid × Except Error Nat) :=
  match requestAll request impl factory.dependencies with
  | none => none
  | some (impl, .error error) => some (impl.passException id, .error error)
  | some (impl, .ok ()) =>
    if factory.throws then some (impl.passException id, .error .factoryFailed)
    else
      let (impl, service) := impl.construct id
      some (impl.emplaceService id service, .ok service)

/-- `none` if the recursion is deeper than `fuel`. -/
def requestService : Nat → Impl Uid → Uid → Option (Impl Uid × Except Error Nat)
  | 0, _, _ => none
  | fuel + 1, impl, id =>
    match impl.findService id with
    | some service => some (impl, .ok service)
    | none =>
      match impl.beginRequest id with
      | (impl, .active service) => some (impl, .ok service)
      | (impl, .failed error) => some (impl, .error error)
      | (impl, .starts factory) => callFactory (requestService fuel) impl id factory

/-- The loop of the destructor: the services in the order of their destruction.
`none` if a started service is not active. -/
def destroyServices (activeServices : Uid → Option Nat) : List Uid → Option (List Uid)
  | [] => some []
  | id :: rest =>
    match activeServices id with
    | none => none
    | some _ => (destroyServices (Function.update activeServices id none) rest).map (id :: ·)

def destroy (impl : Impl Uid) : Option (List Uid) :=
  destroyServices impl.activeServices impl.startOrder.reverse

end Impl

/-- What registrations and requests make of a new locator. -/
inductive Reachable : Impl Uid → Prop where
  | initial : Reachable {}
  | registered {impl impl' : Impl Uid} {id : Uid} {factory : Factory Uid} (before : Reachable impl)
      (registered : impl.registerServiceFactory id factory = some impl') : Reachable impl'
  | requested {impl impl' : Impl Uid} {id : Uid} {fuel : Nat} {result : Except Error Nat}
      (before : Reachable impl)
      (requested : impl.requestService fuel id = some (impl', result)) : Reachable impl'

/-- The factory of `id` requests `dep`. -/
def Depends (factoryMap : List (Uid × Factory Uid)) (id dep : Uid) : Prop :=
  ∃ factory, factoryMap.lookup id = some factory ∧ dep ∈ factory.dependencies

/-- The service is registered and its factory does not throw. -/
def Constructible (factoryMap : List (Uid × Factory Uid)) (id : Uid) : Prop :=
  ∃ factory, factoryMap.lookup id = some factory ∧ factory.throws = false

/-- No cycle, no service without a factory and no factory that throws is reached. -/
def Startable (factoryMap : List (Uid × Factory Uid)) (id : Uid) : Prop :=
  DependencyOrder.Startable (Depends factoryMap) (Constructible factoryMap) id

/-- What a request for `id` is to do. -/
structure RequestCorrect (impl impl' : Impl Uid) (id : Uid) (result : Except Error Nat) : Prop where
  succeeds_iff : (∃ service, result = .ok service) ↔ Startable impl.factoryMap id
  started : ∀ service, result = .ok service → impl'.findService id = some service
  reached : (∃ service, result = .ok service) →
    ∀ other, Relation.ReflTransGen (Depends impl.factoryMap) id other →
      (impl'.findService other).isSome ∧ impl'.constructed.count other = 1
  ordered : ∃ destroyed, impl'.destroy = some destroyed ∧
    ∀ other dep, (impl'.findService other).isSome → Depends impl.factoryMap other dep →
      impl'.constructed.Before dep other ∧ destroyed.Before other dep
  pending : impl'.pendingServices = impl.pendingServices
  inactive : ∀ other, ¬ Startable impl.factoryMap other → impl'.findService other = none
  matched : impl'.mismatched = false

end Voxen.Svc.ServiceLocator
