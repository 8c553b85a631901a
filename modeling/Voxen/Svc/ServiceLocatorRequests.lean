import Mathlib.Data.List.Nodup
import Mathlib.Data.List.Perm.Subperm
import Voxen.Svc.ServiceLocator

/-!
# Sequential requests

A request keeps the started services in dependency order.  It fails only if the
service needs something that can not be started, and it leaves the pending services
as they were.
-/

namespace Voxen.Svc.ServiceLocator

open Relation

variable {Uid : Type} [DecidableEq Uid] {impl impl' : Impl Uid} {id : Uid}

/-- Only the error log is different. -/
def Logged (impl impl' : Impl Uid) : Prop :=
  ∃ flag errors, impl' = { impl with requestServiceFailLogged := flag, errors }

omit [DecidableEq Uid] in
theorem logFailure_logged (impl : Impl Uid) (line : LogLine Uid) :
    Logged impl (impl.logFailure line) := by
  unfold Impl.logFailure Impl.errorLogDependencyChain
  split
  · exact ⟨_, _, rfl⟩
  · exact ⟨_, _, rfl⟩

theorem popPending_eq {pending : List Uid} (last : impl.pendingServices = pending ++ [id]) :
    impl.popPending id = { impl with pendingServices := pending } := by
  simp [Impl.popPending, last]

theorem beginRequest_cases (inactive : impl.activeServices id = none) :
    (id ∈ impl.pendingServices ∧ ∃ impl', Logged impl impl' ∧
      impl.beginRequest id = (impl', .failed .circularDependency)) ∨
    (id ∉ impl.pendingServices ∧ impl.factoryMap.lookup id = none ∧
      ∃ impl', Logged impl impl' ∧
        impl.beginRequest id = (impl', .failed .unresolvedDependency)) ∨
    (id ∉ impl.pendingServices ∧ ∃ factory, impl.factoryMap.lookup id = some factory ∧
      impl.beginRequest id = ({ impl with
        requestServiceFailLogged := false
        pendingServices := impl.pendingServices ++ [id] }, .starts factory)) := by
  by_cases isPending : id ∈ impl.pendingServices
  · obtain ⟨flag, errors, same⟩ :=
      logFailure_logged { impl with requestServiceFailLogged := false } (.circular id)
    refine Or.inl ⟨isPending, _, ⟨flag, errors, rfl⟩, ?_⟩
    simp [Impl.beginRequest, inactive, isPending, same]
  · cases found : impl.factoryMap.lookup id with
    | none =>
      obtain ⟨flag, errors, same⟩ := logFailure_logged { impl with
        requestServiceFailLogged := false
        pendingServices := impl.pendingServices ++ [id] } (.noFactory id)
      refine Or.inr (Or.inl ⟨isPending, rfl, _, ⟨flag, errors, rfl⟩, ?_⟩)
      simp [Impl.beginRequest, inactive, isPending, found, same, Impl.popPending]
    | some factory =>
      refine Or.inr (Or.inr ⟨isPending, factory, rfl, ?_⟩)
      simp [Impl.beginRequest, inactive, isPending, found]

theorem passException_eq {pending : List Uid} (last : impl.pendingServices = pending ++ [id]) :
    Logged { impl with pendingServices := pending } (impl.passException id) := by
  unfold Impl.passException
  split
  · exact ⟨_, _, popPending_eq last⟩
  · obtain ⟨flag, errors, same⟩ := logFailure_logged impl (.factoryFailed id)
    rw [same]
    exact ⟨flag, errors, popPending_eq last⟩

theorem Impl.emplaceService_eq (impl : Impl Uid) {pending : List Uid} (service : Nat)
    (last : impl.pendingServices = pending ++ [id]) (inactive : impl.activeServices id = none) :
    impl.emplaceService id service = { impl with
      activeServices := Function.update impl.activeServices id (some service)
      startOrder := impl.startOrder ++ [id]
      pendingServices := pending } := by
  simp [Impl.emplaceService, Impl.popPending, inactive, last]

/-- The started services. -/
structure Inv (impl : Impl Uid) : Prop where
  ordered : DependencyOrder.Ordered (Depends impl.factoryMap) impl.startOrder
  nodup : impl.startOrder.Nodup
  constructible : ∀ id ∈ impl.startOrder, Constructible impl.factoryMap id
  active : ∀ id service,
    impl.activeServices id = some service ↔ impl.startOrder[service]? = some id
  constructed : impl.constructed = impl.startOrder
  matched : impl.mismatched = false

namespace Inv

theorem isSome_iff (inv : Inv impl) (id : Uid) :
    (impl.activeServices id).isSome ↔ id ∈ impl.startOrder := by
  rw [Option.isSome_iff_exists, List.mem_iff_getElem?]
  simp only [inv.active]

theorem not_mem (inv : Inv impl) (inactive : impl.activeServices id = none) :
    id ∉ impl.startOrder := by
  rw [← inv.isSome_iff, inactive]
  simp

theorem startable (inv : Inv impl) (started : id ∈ impl.startOrder) :
    Startable impl.factoryMap id :=
  inv.ordered.startable inv.nodup inv.constructible started

theorem logged (inv : Inv impl) (logged : Logged impl impl') : Inv impl' := by
  obtain ⟨flag, errors, rfl⟩ := logged
  exact ⟨inv.ordered, inv.nodup, inv.constructible, inv.active, inv.constructed, inv.matched⟩

theorem pending (inv : Inv impl) (pendingServices : List Uid) :
    Inv { impl with pendingServices } :=
  ⟨inv.ordered, inv.nodup, inv.constructible, inv.active, inv.constructed, inv.matched⟩

theorem start (inv : Inv impl) {factory : Factory Uid}
    (found : impl.factoryMap.lookup id = some factory) (returns : factory.throws = false)
    (inactive : impl.activeServices id = none)
    (needed : ∀ dep ∈ factory.dependencies, dep ∈ impl.startOrder) :
    Inv { impl with
      activeServices := Function.update impl.activeServices id (some impl.constructed.length)
      startOrder := impl.startOrder ++ [id]
      constructed := impl.constructed ++ [id] } where
  ordered := by
    refine inv.ordered.snoc ?_
    rintro dep ⟨factory', found', mem⟩
    rw [found] at found'
    cases found'
    exact needed dep mem
  nodup := by
    refine List.nodup_append.mpr ⟨inv.nodup, List.nodup_singleton id, ?_⟩
    rintro other mem last isLast rfl
    rw [List.mem_singleton.mp isLast] at mem
    exact inv.not_mem inactive mem
  constructible := by
    intro other mem
    rcases List.mem_append.mp mem with mem | mem
    · exact inv.constructible other mem
    · rw [List.mem_singleton.mp mem]
      exact ⟨factory, found, returns⟩
  active := by
    intro other service
    dsimp only
    rw [inv.constructed, List.getElem?_append]
    by_cases isLast : other = id
    · subst isLast
      rw [Function.update_self]
      split
      next before =>
        have absent : impl.startOrder[service]? ≠ some other :=
          fun same => inv.not_mem inactive (List.mem_of_getElem? same)
        have different : impl.startOrder.length ≠ service := by omega
        simp [absent, different]
      next after =>
        rw [List.getElem?_singleton]
        simp only [Option.some.injEq, Option.ite_none_right_eq_some, and_true]
        omega
    · rw [Function.update_of_ne isLast, inv.active]
      split
      next => rfl
      next after =>
        have absent : impl.startOrder[service]? = none := List.getElem?_eq_none (by omega)
        have different : [id][service - impl.startOrder.length]? ≠ some other := by
          intro same
          exact isLast (List.mem_singleton.mp (List.mem_of_getElem? same))
        simp [absent, different]
  constructed := by rw [inv.constructed]
  matched := inv.matched

end Inv

/-- A request for `id` is made while the pending services are being started. -/
structure Nested (impl : Impl Uid) (id : Uid) : Prop where
  nodup : impl.pendingServices.Nodup
  registered : ∀ pending ∈ impl.pendingServices, (impl.factoryMap.lookup pending).isSome
  inactive : ∀ pending ∈ impl.pendingServices, pending ∉ impl.startOrder
  needs : ∀ pending ∈ impl.pendingServices, TransGen (Depends impl.factoryMap) pending id

/-- What a request for the services does. -/
structure Requested (impl impl' : Impl Uid) (ids : List Uid) (success : Prop) : Prop where
  inv : Inv impl'
  factoryMap : impl'.factoryMap = impl.factoryMap
  pending : impl'.pendingServices = impl.pendingServices
  kept : ∀ other ∈ impl.startOrder, other ∈ impl'.startOrder
  notPending : ∀ other ∈ impl'.startOrder, other ∈ impl.startOrder ∨
    other ∉ impl.pendingServices
  succeeded : success → ∀ id ∈ ids, id ∈ impl'.startOrder
  failed : ¬ success → ∃ id ∈ ids, ¬ Startable impl.factoryMap id

namespace Requested

variable {ids : List Uid} {success : Prop}

theorem unchanged (inv : Inv impl) (pending : impl'.pendingServices = impl.pendingServices)
    (logged : Logged impl impl') (succeeded : success → ∀ id ∈ ids, id ∈ impl.startOrder)
    (failed : ¬ success → ∃ id ∈ ids, ¬ Startable impl.factoryMap id) :
    Requested impl impl' ids success := by
  obtain ⟨flag, errors, rfl⟩ := logged
  exact ⟨inv.logged ⟨flag, errors, rfl⟩, rfl, pending, fun _ => id, fun _ => Or.inl, succeeded,
    failed⟩

theorem nested {dep : Uid} (requested : Requested impl impl' ids success)
    (nested : Nested impl dep) {next : Uid}
    (needs : ∀ pending ∈ impl.pendingServices, TransGen (Depends impl.factoryMap) pending next) :
    Nested impl' next := by
  refine ⟨?_, ?_, ?_, ?_⟩
  · rw [requested.pending]
    exact nested.nodup
  · rw [requested.pending, requested.factoryMap]
    exact nested.registered
  · rw [requested.pending]
    intro pending mem started
    rcases requested.notPending pending started with before | notPending
    · exact nested.inactive pending mem before
    · exact notPending mem
  · rw [requested.pending, requested.factoryMap]
    exact needs

theorem trans {impl'' : Impl Uid} {dep : Uid} {deps : List Uid}
    (first : Requested impl impl' [dep] True) (rest : Requested impl' impl'' deps success) :
    Requested impl impl'' (dep :: deps) success where
  inv := rest.inv
  factoryMap := rest.factoryMap.trans first.factoryMap
  pending := rest.pending.trans first.pending
  kept other mem := rest.kept other (first.kept other mem)
  notPending other mem := by
    rcases rest.notPending other mem with before | notPending
    · exact first.notPending other before
    · exact Or.inr (first.pending ▸ notPending)
  succeeded isSuccess other mem := by
    rcases List.mem_cons.mp mem with rfl | mem
    · exact rest.kept other (first.succeeded trivial other List.mem_cons_self)
    · exact rest.succeeded isSuccess other mem
  failed isFailure := by
    obtain ⟨other, mem, notStartable⟩ := rest.failed isFailure
    exact ⟨other, List.mem_cons_of_mem _ mem, first.factoryMap ▸ notStartable⟩

end Requested

/-- A result is a success if it is not an error. -/
def Succeeds {α : Type} (result : Except Error α) : Prop := ∃ value, result = .ok value

theorem not_succeeds_error {α : Type} (error : Error) :
    ¬ Succeeds (.error error : Except Error α) := by
  rintro ⟨_, ⟨⟩⟩

namespace Requested

variable {α : Type} {ids : List Uid}

theorem failure (requested : Requested impl impl' ids False) (error : Error) :
    Requested impl impl' ids (Succeeds (.error error : Except Error α)) :=
  ⟨requested.inv, requested.factoryMap, requested.pending, requested.kept, requested.notPending,
    fun isOk => absurd isOk (not_succeeds_error error), fun _ => requested.failed id⟩

theorem success_iff {value : α} :
    Requested impl impl' ids (Succeeds (.ok value)) ↔ Requested impl impl' ids True := by
  have isTrue : Succeeds (.ok value) = True := eq_true ⟨value, rfl⟩
  rw [isTrue]

end Requested

variable {deps : List Uid} {request : Impl Uid → Uid → Option (Impl Uid × Except Error Nat)}
  {factory : Factory Uid} {flag : Bool} {fuel : Nat}

theorem requestAll_requested (inv : Inv impl) (nested : ∀ dep ∈ deps, Nested impl dep)
    (each : ∀ current dep, Inv current → Nested current dep →
      current.factoryMap = impl.factoryMap → current.pendingServices = impl.pendingServices →
      ∃ next result, request current dep = some (next, result) ∧
        Requested current next [dep] (Succeeds result)) :
    ∃ impl' result, Impl.requestAll request impl deps = some (impl', result) ∧
      Requested impl impl' deps (Succeeds result) := by
  induction deps generalizing impl with
  | nil =>
    refine ⟨impl, .ok (), rfl, .unchanged inv rfl ⟨_, _, rfl⟩ (fun _ _ mem => by cases mem) ?_⟩
    exact fun failed => absurd ⟨(), rfl⟩ failed
  | cons dep deps ih =>
    have nestedDep := nested dep List.mem_cons_self
    obtain ⟨middle, result, isResult, requested⟩ := each impl dep inv nestedDep rfl rfl
    rw [Impl.requestAll, isResult]
    cases result with
    | error error =>
      obtain ⟨bad, mem, notStartable⟩ := requested.failed (not_succeeds_error error)
      obtain rfl := List.mem_singleton.mp mem
      have failed : Requested impl middle (bad :: deps) False :=
        ⟨requested.inv, requested.factoryMap, requested.pending, requested.kept,
          requested.notPending, False.elim, fun _ => ⟨bad, List.mem_cons_self, notStartable⟩⟩
      exact ⟨middle, .error error, rfl, failed.failure error⟩
    | ok service =>
      have first := Requested.success_iff.mp requested
      have nestedRest : ∀ other ∈ deps, Nested middle other := fun other mem =>
        first.nested nestedDep (nested other (List.mem_cons_of_mem _ mem)).needs
      obtain ⟨impl', result, isResult', rest⟩ := ih requested.inv nestedRest
        fun current other currentInv currentNested sameMap samePending =>
          each current other currentInv currentNested (sameMap.trans requested.factoryMap)
            (samePending.trans requested.pending)
      exact ⟨impl', result, isResult', first.trans rest⟩

theorem Nested.length_le (nested : Nested impl id) :
    impl.pendingServices.length ≤ impl.factoryMap.length := by
  have registered : impl.pendingServices ⊆ impl.factoryMap.map Prod.fst := by
    intro pending mem
    obtain ⟨factory, found⟩ := Option.isSome_iff_exists.mp (nested.registered pending mem)
    obtain ⟨before, after, same, -⟩ := List.lookup_eq_some_iff.mp found
    rw [same]
    simp
  simpa using (List.subperm_of_subset nested.nodup registered).length_le

/-- The dependencies of a service are requested while the service is pending. -/
theorem Nested.push (nested : Nested impl id) (found : impl.factoryMap.lookup id = some factory)
    (notPending : id ∉ impl.pendingServices) (inactive : id ∉ impl.startOrder) {dep : Uid}
    (mem : dep ∈ factory.dependencies) :
    Nested { impl with
      requestServiceFailLogged := flag
      pendingServices := impl.pendingServices ++ [id] } dep := by
  have needs : Depends impl.factoryMap id dep := ⟨factory, found, mem⟩
  refine ⟨?_, ?_, ?_, ?_⟩
  · refine List.nodup_append.mpr ⟨nested.nodup, List.nodup_singleton id, ?_⟩
    rintro other isPending last isLast rfl
    rw [List.mem_singleton.mp isLast] at isPending
    exact notPending isPending
  · intro pending isPending
    rcases List.mem_append.mp isPending with isPending | isLast
    · exact nested.registered pending isPending
    · rw [List.mem_singleton.mp isLast]
      exact Option.isSome_iff_exists.mpr ⟨factory, found⟩
  · intro pending isPending
    rcases List.mem_append.mp isPending with isPending | isLast
    · exact nested.inactive pending isPending
    · rw [List.mem_singleton.mp isLast]
      exact inactive
  · intro pending isPending
    rcases List.mem_append.mp isPending with isPending | isLast
    · exact (nested.needs pending isPending).tail needs
    · rw [List.mem_singleton.mp isLast]
      exact .single needs

theorem Requested.fail {before after : Impl Uid} {success : Prop} (requested : Requested { impl with
      requestServiceFailLogged := flag
      pendingServices := impl.pendingServices ++ [id] } after deps success)
    (bad : ¬ Startable impl.factoryMap id)
    (logged : Logged { after with pendingServices := impl.pendingServices } before) :
    Requested impl before [id] False := by
  obtain ⟨flag, errors, rfl⟩ := logged
  refine ⟨(requested.inv.pending _).logged ⟨flag, errors, rfl⟩, requested.factoryMap, rfl,
    requested.kept, fun other mem => ?_, False.elim, fun _ => ⟨id, List.mem_singleton_self id, bad⟩⟩
  exact (requested.notPending other mem).imp_right fun notPending isPending =>
    notPending (List.mem_append_left _ isPending)

theorem Requested.start {after : Impl Uid} (requested : Requested { impl with
      requestServiceFailLogged := flag
      pendingServices := impl.pendingServices ++ [id] } after factory.dependencies True)
    (found : impl.factoryMap.lookup id = some factory) (returns : factory.throws = false)
    (inactive : after.activeServices id = none) (notPending : id ∉ impl.pendingServices) :
    Requested impl { after with
      activeServices := Function.update after.activeServices id (some after.constructed.length)
      startOrder := after.startOrder ++ [id]
      constructed := after.constructed ++ [id]
      pendingServices := impl.pendingServices } [id] True := by
  have found' : after.factoryMap.lookup id = some factory := by
    rw [requested.factoryMap]
    exact found
  refine ⟨(requested.inv.start found' returns inactive (requested.succeeded trivial)).pending _,
    requested.factoryMap, rfl, fun other mem => List.mem_append_left _ (requested.kept other mem),
    fun other mem => ?_, fun _ other mem => ?_, fun isFalse => absurd trivial isFalse⟩
  · rcases List.mem_append.mp mem with mem | isLast
    · exact (requested.notPending other mem).imp_right fun notPending isPending =>
        notPending (List.mem_append_left _ isPending)
    · rw [List.mem_singleton.mp isLast]
      exact Or.inr notPending
  · exact List.mem_append_right _ mem

theorem callFactory_requested (inv : Inv impl) (nested : Nested impl id)
    (inactive : id ∉ impl.startOrder) (notPending : id ∉ impl.pendingServices)
    (found : impl.factoryMap.lookup id = some factory)
    (each : ∀ current dep, Inv current → Nested current dep →
      current.factoryMap = impl.factoryMap →
      current.pendingServices = impl.pendingServices ++ [id] →
      ∃ next result, request current dep = some (next, result) ∧
        Requested current next [dep] (Succeeds result)) :
    ∃ impl' result, Impl.callFactory request { impl with
        requestServiceFailLogged := false
        pendingServices := impl.pendingServices ++ [id] } id factory = some (impl', result) ∧
      Requested impl impl' [id] (Succeeds result) ∧
      ∀ service, result = .ok service → impl'.findService id = some service := by
  have pushedInv : Inv { impl with
      requestServiceFailLogged := false
      pendingServices := impl.pendingServices ++ [id] } :=
    ⟨inv.ordered, inv.nodup, inv.constructible, inv.active, inv.constructed, inv.matched⟩
  obtain ⟨after, result, isResult, requested⟩ := requestAll_requested pushedInv
    (fun dep mem => nested.push found notPending inactive mem) each
  have last : after.pendingServices = impl.pendingServices ++ [id] := requested.pending
  rw [Impl.callFactory, isResult]
  cases result with
  | error error =>
    obtain ⟨dep, mem, notStartable⟩ := requested.failed (not_succeeds_error error)
    have bad : ¬ Startable impl.factoryMap id := fun startable =>
      notStartable (startable.of_depends ⟨factory, found, mem⟩)
    exact ⟨_, _, rfl, (requested.fail bad (passException_eq last)).failure error, nofun⟩
  | ok value =>
    cases throws : factory.throws with
    | true =>
      have bad : ¬ Startable impl.factoryMap id := by
        intro startable
        obtain ⟨factory', found', returns⟩ := (startable id .refl).1
        rw [found] at found'
        cases found'
        rw [throws] at returns
        cases returns
      exact ⟨_, _, rfl, (requested.fail bad (passException_eq last)).failure _, nofun⟩
    | false =>
      have stillInactive : after.activeServices id = none := by
        rw [← Option.not_isSome_iff_eq_none, requested.inv.isSome_iff]
        intro started
        rcases requested.notPending id started with before | notPending
        · exact inactive before
        · exact notPending (List.mem_append_right _ (List.mem_singleton_self id))
      have started := (Requested.success_iff.mp requested).start found throws stillInactive
        notPending
      have emplaced := (after.construct id).1.emplaceService_eq after.constructed.length last
        stillInactive
      refine ⟨(after.construct id).1.emplaceService id after.constructed.length,
        .ok after.constructed.length, rfl, ?_, fun service same => ?_⟩
      · rw [emplaced]
        exact Requested.success_iff.mpr started
      · cases same
        rw [emplaced]
        exact Function.update_self _ _ _

/-- A request, by induction on the depth of the recursion: each level has one more
pending service. -/
theorem requestService_requested (inv : Inv impl) (nested : Nested impl id)
    (enough : impl.factoryMap.length < fuel + impl.pendingServices.length) :
    ∃ impl' result, Impl.requestService fuel impl id = some (impl', result) ∧
      Requested impl impl' [id] (Succeeds result) ∧
      ∀ service, result = .ok service → impl'.findService id = some service := by
  induction fuel generalizing impl id with
  | zero =>
    have bound := nested.length_le
    omega
  | succ fuel ih =>
    rw [Impl.requestService, Impl.findService]
    cases inactive : impl.activeServices id with
    | some service =>
      refine ⟨impl, .ok service, rfl, .unchanged inv rfl ⟨_, _, rfl⟩ (fun _ other mem => ?_)
        (fun failed => absurd ⟨service, rfl⟩ failed), fun other same => ?_⟩
      · obtain rfl := List.mem_singleton.mp mem
        exact (inv.isSome_iff other).mp (inactive ▸ rfl)
      · cases same
        exact inactive
    | none =>
      rcases beginRequest_cases inactive with ⟨isPending, logged, isLogged, begun⟩ |
        ⟨notPending, absent, logged, isLogged, begun⟩ | ⟨notPending, factory, found, begun⟩
      · rw [begun]
        refine ⟨logged, _, rfl, .unchanged inv ?_ isLogged
          (fun isOk => absurd isOk (not_succeeds_error _)) fun _ => ?_, nofun⟩
        · obtain ⟨flag, errors, rfl⟩ := isLogged
          rfl
        · exact ⟨id, List.mem_singleton_self id, fun startable =>
            (startable id .refl).2 (nested.needs id isPending)⟩
      · rw [begun]
        refine ⟨logged, _, rfl, .unchanged inv ?_ isLogged
          (fun isOk => absurd isOk (not_succeeds_error _)) fun _ => ?_, nofun⟩
        · obtain ⟨flag, errors, rfl⟩ := isLogged
          rfl
        · refine ⟨id, List.mem_singleton_self id, fun startable => ?_⟩
          obtain ⟨factory, found, -⟩ := (startable id .refl).1
          rw [absent] at found
          cases found
      · rw [begun]
        refine callFactory_requested inv nested (inv.not_mem inactive) notPending found ?_
        intro current dep currentInv currentNested sameMap samePending
        obtain ⟨next, result, isResult, requested, -⟩ := ih currentInv currentNested (by
          rw [sameMap, samePending, List.length_append, List.length_singleton]
          omega)
        exact ⟨next, result, isResult, requested⟩

/-! ## The whole locator -/

omit [DecidableEq Uid] in
theorem requestAll_mono {request' : Impl Uid → Uid → Option (Impl Uid × Except Error Nat)}
    (more : ∀ impl id returned, request impl id = some returned → request' impl id = some returned)
    {returned : Impl Uid × Except Error Unit}
    (returns : Impl.requestAll request impl deps = some returned) :
    Impl.requestAll request' impl deps = some returned := by
  induction deps generalizing impl with
  | nil => exact returns
  | cons dep deps ih =>
    rw [Impl.requestAll] at returns ⊢
    cases first : request impl dep with
    | none =>
      rw [first] at returns
      cases returns
    | some next =>
      rw [first] at returns
      rw [more impl dep next first]
      obtain ⟨next, error | service⟩ := next
      · exact returns
      · exact ih returns

theorem requestService_succ {returned : Impl Uid × Except Error Nat}
    (returns : Impl.requestService fuel impl id = some returned) :
    Impl.requestService (fuel + 1) impl id = some returned := by
  induction fuel generalizing impl id returned with
  | zero => cases returns
  | succ fuel ih =>
    rw [Impl.requestService] at returns ⊢
    cases active : impl.findService id with
    | some service =>
      rw [active] at returns
      exact returns
    | none =>
      rw [active] at returns
      dsimp only at returns ⊢
      cases begun : impl.beginRequest id with
      | mk middle outcome =>
        rw [begun] at returns
        cases outcome with
        | active service => exact returns
        | failed error => exact returns
        | starts factory =>
          simp only [Impl.callFactory] at returns ⊢
          cases called : Impl.requestAll (Impl.requestService fuel) middle
              factory.dependencies with
          | none =>
            rw [called] at returns
            cases returns
          | some after =>
            rw [called] at returns
            rw [requestAll_mono (fun _ _ _ => ih) called]
            exact returns

theorem requestService_mono {more : Nat} {returned : Impl Uid × Except Error Nat} (le : fuel ≤ more)
    (returns : Impl.requestService fuel impl id = some returned) :
    Impl.requestService more impl id = some returned := by
  induction le with
  | refl => exact returns
  | step _ ih => exact requestService_succ ih

theorem Inv.nested (none_ : impl.pendingServices = []) : Nested impl id := by
  refine ⟨?_, ?_, ?_, ?_⟩ <;> rw [none_]
  · exact List.nodup_nil
  all_goals exact nofun

/-- What registrations and requests make of a locator: nothing is pending between
them. -/
theorem Reachable.inv (reachable : Reachable impl) : Inv impl ∧ impl.pendingServices = [] := by
  induction reachable with
  | initial =>
    exact ⟨⟨.nil, List.nodup_nil, nofun, fun _ _ => ⟨nofun, nofun⟩, rfl, rfl⟩, rfl⟩
  | @registered impl impl' id factory _ registered ih =>
    obtain ⟨inv, none_⟩ := ih
    unfold Impl.registerServiceFactory at registered
    split at registered
    · cases registered
    next absent =>
      cases registered
      have kept : ∀ other ∈ impl.startOrder,
          (impl.factoryMap ++ [(id, factory)]).lookup other = impl.factoryMap.lookup other := by
        intro other mem
        obtain ⟨found, isFound, -⟩ := inv.constructible other mem
        rw [List.lookup_append, isFound, Option.some_or]
      refine ⟨⟨inv.ordered.congr fun other mem dep needs => ?_, inv.nodup, fun other mem => ?_,
        inv.active, inv.constructed, inv.matched⟩, none_⟩
      · obtain ⟨found, isFound, isDep⟩ := needs
        exact ⟨found, (kept other mem).symm.trans isFound, isDep⟩
      · obtain ⟨found, isFound, returns⟩ := inv.constructible other mem
        exact ⟨found, (kept other mem).trans isFound, returns⟩
  | @requested impl impl' id fuel result _ requested ih =>
    obtain ⟨inv, none_⟩ := ih
    have nested : Nested impl id := Inv.nested none_
    have enough : impl.factoryMap.length <
        (fuel + impl.factoryMap.length + 1) + impl.pendingServices.length := by omega
    obtain ⟨next, result', returns, did, -⟩ := requestService_requested inv nested enough
    have more : fuel ≤ fuel + impl.factoryMap.length + 1 := by omega
    have same := requestService_mono more requested
    rw [returns] at same
    cases same
    exact ⟨did.inv, did.pending.trans none_⟩

theorem destroyServices_eq {activeServices : Uid → Option Nat} {order : List Uid}
    (nodup : order.Nodup) (active : ∀ id ∈ order, (activeServices id).isSome) :
    Impl.destroyServices activeServices order = some order := by
  induction order generalizing activeServices with
  | nil => rfl
  | cons id rest ih =>
    obtain ⟨service, isActive⟩ := Option.isSome_iff_exists.mp (active id List.mem_cons_self)
    obtain ⟨notRest, restNodup⟩ := List.nodup_cons.mp nodup
    have restActive : ∀ other ∈ rest, (Function.update activeServices id none other).isSome := by
      intro other mem
      have different : other ≠ id := by
        rintro rfl
        exact notRest mem
      rw [Function.update_of_ne different]
      exact active other (List.mem_cons_of_mem _ mem)
    rw [Impl.destroyServices, isActive]
    dsimp only
    rw [ih restNodup restActive, Option.map_some]

theorem Inv.destroy (inv : Inv impl) : impl.destroy = some impl.startOrder.reverse :=
  destroyServices_eq (List.nodup_reverse.mpr inv.nodup) fun id mem =>
    (inv.isSome_iff id).mpr (List.mem_reverse.mp mem)

/-- Every request to a locator ends, however deep the recursion gets; it succeeds if
and only if the service is startable, and does what it is to do. -/
theorem requestService_correct (reachable : Reachable impl) (id : Uid) :
    ∃ impl' result,
      (∀ fuel, impl.factoryMap.length < fuel →
        Impl.requestService fuel impl id = some (impl', result)) ∧
      RequestCorrect impl impl' id result := by
  obtain ⟨inv, none_⟩ := reachable.inv
  have nested : Nested impl id := Inv.nested none_
  have enough : impl.factoryMap.length <
      (impl.factoryMap.length + 1) + impl.pendingServices.length := by omega
  obtain ⟨impl', result, returns, requested, found⟩ := requestService_requested inv nested enough
  refine ⟨impl', result, fun fuel enough => requestService_mono enough returns, ?_⟩
  have after := requested.inv
  have startableOf : ∀ other, (impl'.findService other).isSome →
      Startable impl.factoryMap other := by
    intro other isActive
    rw [← requested.factoryMap]
    exact after.startable ((after.isSome_iff other).mp isActive)
  have reached : Succeeds result → ∀ other, ReflTransGen (Depends impl.factoryMap) id other →
      other ∈ impl'.startOrder := by
    intro isOk other reaches
    rw [← requested.factoryMap] at reaches
    exact after.ordered.reached (requested.succeeded isOk id (List.mem_singleton_self id)) reaches
  refine ⟨⟨fun isOk => ?_, fun startable => ?_⟩, found, fun isOk other reaches => ⟨?_, ?_⟩,
    ⟨_, after.destroy, fun other dep isActive needs => ?_⟩, requested.pending,
    fun other notStartable => ?_, after.matched⟩
  · exact startableOf id ((after.isSome_iff id).mpr (reached isOk id .refl))
  · by_contra notOk
    obtain ⟨other, mem, notStartable⟩ := requested.failed notOk
    rw [List.mem_singleton.mp mem] at notStartable
    exact notStartable startable
  · exact (after.isSome_iff other).mpr (reached isOk other reaches)
  · rw [after.constructed]
    exact List.count_eq_one_of_mem after.nodup (reached isOk other reaches)
  · have mem := (after.isSome_iff other).mp isActive
    rw [← requested.factoryMap] at needs
    rw [after.constructed]
    exact ⟨after.ordered.before mem needs, (after.ordered.before mem needs).reverse⟩
  · rw [← Option.not_isSome_iff_eq_none]
    exact fun isActive => notStartable (startableOf other isActive)

/-- Service 0 needs 1 and 2, and 1 needs 2. -/
def threeServices : Impl Nat :=
  { factoryMap := [(0, ⟨[1, 2], false⟩), (1, ⟨[2], false⟩), (2, ⟨[], false⟩)] }

theorem threeServices_reachable : Reachable threeServices := by
  have one : ({} : Impl Nat).registerServiceFactory 0 ⟨[1, 2], false⟩ =
      some { factoryMap := [(0, ⟨[1, 2], false⟩)] } := rfl
  have two : ({ factoryMap := [(0, ⟨[1, 2], false⟩)] } : Impl Nat).registerServiceFactory 1
      ⟨[2], false⟩ = some { factoryMap := [(0, ⟨[1, 2], false⟩), (1, ⟨[2], false⟩)] } := rfl
  have three : ({ factoryMap := [(0, ⟨[1, 2], false⟩), (1, ⟨[2], false⟩)] } :
      Impl Nat).registerServiceFactory 2 ⟨[], false⟩ = some threeServices := rfl
  exact .registered (.registered (.registered .initial one) two) three

theorem threeServices_correct :
    ∃ impl' result,
      (∀ fuel, threeServices.factoryMap.length < fuel →
        Impl.requestService fuel threeServices 0 = some (impl', result)) ∧
      RequestCorrect threeServices impl' 0 result :=
  requestService_correct threeServices_reachable 0

example : (Impl.requestService 4 threeServices 0).map (fun done => done.1.startOrder) =
    some [2, 1, 0] := by decide

end Voxen.Svc.ServiceLocator
