import Mathlib.Tactic.IntervalCases
import Unixtar.Lib.OrdMap
import Unixtar.Utils.StrUtil

/-!
# The registry of net scenes: `netscene/netscenedispatcher.cc`

`selectors_` is a vector of pointers, indexed by the type of the scene.  The
constructor registers four scenes and pads the other reserved types with null
pointers; an application registers its scenes behind them.  The type of a
request comes from its route or from its body, so that a client may ask for a
padded type, and `__MakeNetScene` follows the null pointer.

`none` means that an assertion fails or that a null pointer is followed.  The
parser of the body is generated code and an argument.

## Main results

* `ok_of_built` — every registry that can be built has its scenes at their
  types, and null pointers exactly at the padded types.
* `finds_iff_not_padded` — `__MakeNetScene` finds the right scene exactly when
  the type is not a padded one.
* `handleHttp_iff` — a request gets a scene exactly when it is not a POST off
  all routes whose body asks for a padded type.
-/

namespace Unixtar.NetScene

open Unixtar.Lib

/-! ## The registry -/

/-- The values of an `int`. -/
def IsInt (i : Int) : Prop := -2 ^ 31 ≤ i ∧ i < 2 ^ 31

instance (i : Int) : Decidable (IsInt i) := inferInstanceAs (Decidable (_ ∧ _))

/-- A class of net scenes, as the registry sees it. -/
structure NetSceneImpl where
  type : Int
  isUseProtobuf : Bool
  route : Option Bytes
  isInt : IsInt type
deriving DecidableEq

def kReservedTypeOffset : Nat := 10
def kNetSceneTypeGetIndexPage : Int := 0
def kNetSceneTypeHelloSvr : Int := 1
def kNetSceneType404NotFound : Int := 2
def kNetSceneTypeGetFavIcon : Int := 3

def netSceneGetIndexPage : NetSceneImpl :=
  ⟨kNetSceneTypeGetIndexPage, false, some (lit "/"), by decide⟩

def netSceneHelloSvr : NetSceneImpl := ⟨kNetSceneTypeHelloSvr, true, none, by decide⟩

def netScene404NotFound : NetSceneImpl := ⟨kNetSceneType404NotFound, false, none, by decide⟩

def netSceneGetFavIcon : NetSceneImpl :=
  ⟨kNetSceneTypeGetFavIcon, false, some (lit "/favicon.ico"), by decide⟩

/-- `NetSceneDispatcher`. -/
structure Dispatcher where
  selectors : List (Option NetSceneImpl)
  routeMap : OrdMap Bytes Int

namespace Dispatcher

/-- The entry of a route in `route_map_`. -/
def routeType (d : Dispatcher) (route : Bytes) : Option Int :=
  (d.routeMap.entries.find? fun e => e.1 = route).map Prod.snd

/-- `RegisterNetScene`. -/
def registerNetScene (d : Dispatcher) (scene : NetSceneImpl) : Option Dispatcher :=
  if d.selectors.length ≠ Str.toSizeT scene.type then none
  else
    let selectors := d.selectors ++ [some scene]
    match scene.isUseProtobuf, scene.route with
    | false, some route =>
        if (d.routeType route).isSome then none
        else some { selectors, routeMap := d.routeMap.insert route scene.type }
    | _, _ => some { d with selectors }

/-- The padding loop of the constructor. -/
def pad (d : Dispatcher) : Dispatcher :=
  { d with
    selectors := d.selectors ++
      List.replicate (kReservedTypeOffset + 1 - d.selectors.length) none }

/-- The scenes of the framework, in the order of the constructor. -/
def reservedScenes : List NetSceneImpl :=
  [netSceneGetIndexPage, netSceneHelloSvr, netScene404NotFound, netSceneGetFavIcon]

/-- The constructor. -/
def new : Option Dispatcher :=
  (reservedScenes.foldlM registerNetScene ⟨[], OrdMap.empty⟩).map pad

/-- The registry behind the registrations of an application. -/
def build (scenes : List NetSceneImpl) : Option Dispatcher :=
  new.bind fun d => scenes.foldlM registerNetScene d

/-- `__MakeNetScene`: the scene of which an instance is made. -/
def makeNetScene (d : Dispatcher) (type : Int) : Option NetSceneImpl :=
  if d.selectors.length ≤ Str.toSizeT type then d.selectors[0]?.join
  else
    match d.selectors[Str.toSizeT type]? with
    | some (some select) => if select.type = type then some select else none
    | _ => none

/-- A scene is registered. -/
def Registered (d : Dispatcher) (scene : NetSceneImpl) : Prop := some scene ∈ d.selectors

instance (d : Dispatcher) (scene : NetSceneImpl) : Decidable (d.Registered scene) :=
  inferInstanceAs (Decidable (some scene ∈ d.selectors))

/-- The scene of this type is found if there is one, and the first one
otherwise. -/
def Finds (d : Dispatcher) (type : Int) : Prop :=
  (∃ scene, d.Registered scene ∧ scene.type = type ∧ d.makeNetScene type = some scene) ∨
    (∀ scene, d.Registered scene → scene.type ≠ type) ∧
      ∃ scene, d.selectors[0]? = some (some scene) ∧ d.makeNetScene type = some scene

/-- A reserved type without a scene. -/
def Padded (type : Int) : Prop := kNetSceneTypeGetFavIcon < type ∧ type ≤ kReservedTypeOffset

instance (type : Int) : Decidable (Padded type) := inferInstanceAs (Decidable (_ ∧ _))

/-! ## The registry is in order -/

/-- Every scene stands at its type, the null pointers are those of the padded
types, and every route leads to a scene. -/
structure Ok (d : Dispatcher) : Prop where
  reserved : kReservedTypeOffset < d.selectors.length
  bounded : d.selectors.length ≤ 2 ^ 31
  typed : ∀ (i : Nat) (scene : NetSceneImpl), d.selectors[i]? = some (some scene) → scene.type = i
  padded : ∀ i : Nat, d.selectors[i]? = some none ↔ Padded i
  routed : ∀ e ∈ d.routeMap.entries, ∃ scene, d.Registered scene ∧ scene.type = e.2

/-- What the constructor builds. -/
def reservedDispatcher : Dispatcher :=
  { selectors := reservedScenes.map some ++ List.replicate 7 none
    routeMap := (OrdMap.empty.insert (lit "/") kNetSceneTypeGetIndexPage).insert
      (lit "/favicon.ico") kNetSceneTypeGetFavIcon }

theorem new_eq : new = some reservedDispatcher := rfl

theorem ok_reservedDispatcher : reservedDispatcher.Ok where
  reserved := by decide
  bounded := by decide
  typed := by
    intro i scene h
    have hlt : i < 11 := (List.getElem?_eq_some_iff.1 h).1
    interval_cases i <;> cases h <;> rfl
  padded := by
    intro i
    by_cases hlt : i < 11
    · interval_cases i <;> decide
    · have hnone : reservedDispatcher.selectors[i]? = none :=
        List.getElem?_eq_none (Nat.not_lt.1 hlt)
      rw [hnone]
      unfold Padded kReservedTypeOffset
      constructor
      · intro h
        cases h
      · intro h
        omega
  routed := by
    intro e he
    rcases OrdMap.mem_insertEntry he with rfl | he
    · exact ⟨netSceneGetFavIcon, by decide, rfl⟩
    · rcases OrdMap.mem_insertEntry he with rfl | he
      · exact ⟨netSceneGetIndexPage, by decide, rfl⟩
      · exact absurd he List.not_mem_nil

/-- An `int` that is a small `size_t` is that number. -/
theorem eq_of_toSizeT {type : Int} {n : Nat} (hint : IsInt type) (hn : n ≤ 2 ^ 31)
    (h : n = Str.toSizeT type) : type = n ∧ n < 2 ^ 31 := by
  unfold IsInt at hint
  unfold Str.toSizeT at h
  omega

/-- **One registration.** -/
theorem Ok.registerNetScene {d d' : Dispatcher} {scene : NetSceneImpl} (h : d.Ok)
    (hreg : d.registerNetScene scene = some d') : d'.Ok := by
  unfold Dispatcher.registerNetScene at hreg
  split at hreg
  · cases hreg
  · rename_i hsize
    obtain ⟨htype, hlt⟩ := eq_of_toSizeT scene.isInt h.bounded (not_not.1 hsize)
    have hreserved := h.reserved
    have hselectors : d'.selectors = d.selectors ++ [some scene] ∧
        ∀ e ∈ d'.routeMap.entries, e ∈ d.routeMap.entries ∨ e.2 = scene.type := by
      split at hreg
      · split at hreg
        · cases hreg
        · cases hreg
          refine ⟨rfl, ?_⟩
          intro e he
          rcases OrdMap.mem_insertEntry he with rfl | he
          · exact Or.inr rfl
          · exact Or.inl he
      · cases hreg
        exact ⟨rfl, fun e he => Or.inl he⟩
    obtain ⟨hselectors, hroutes⟩ := hselectors
    have hkeeps : ∀ other, d.Registered other → d'.Registered other := by
      intro other hother
      unfold Registered
      rw [hselectors]
      exact List.mem_append_left _ hother
    have hlength : d'.selectors.length = d.selectors.length + 1 := by
      rw [hselectors, List.length_append]
      rfl
    constructor
    · omega
    · omega
    · intro i other hget
      rw [hselectors] at hget
      rcases Nat.lt_trichotomy i d.selectors.length with hi | hi | hi
      · rw [List.getElem?_append_left hi] at hget
        exact h.typed i other hget
      · rw [hi, List.getElem?_concat_length] at hget
        cases hget
        rw [hi]
        exact htype
      · rw [List.getElem?_eq_none (by simp; omega)] at hget
        cases hget
    · intro i
      rw [← h.padded i, hselectors]
      rcases Nat.lt_trichotomy i d.selectors.length with hi | hi | hi
      · rw [List.getElem?_append_left hi]
      · rw [hi, List.getElem?_concat_length, List.getElem?_eq_none (Nat.le_refl _)]
        simp
      · rw [List.getElem?_eq_none (by simp; omega), List.getElem?_eq_none (by omega)]
    · intro e he
      rcases hroutes e he with he | he
      · obtain ⟨other, hother, htype⟩ := h.routed e he
        exact ⟨other, hkeeps other hother, htype⟩
      · refine ⟨scene, ?_, he.symm⟩
        unfold Registered
        rw [hselectors]
        exact List.mem_append_right _ (List.mem_singleton_self _)

/-- **Every registry that can be built** is in order. -/
theorem ok_of_built {scenes : List NetSceneImpl} {d : Dispatcher} (h : build scenes = some d) :
    d.Ok := by
  have hfold : ∀ (scenes : List NetSceneImpl) (d₀ : Dispatcher), d₀.Ok →
      scenes.foldlM Dispatcher.registerNetScene d₀ = some d → d.Ok := by
    intro scenes
    induction scenes with
    | nil =>
        intro d₀ hok hd
        cases hd
        exact hok
    | cons scene scenes ih =>
        intro d₀ hok hd
        rw [List.foldlM_cons] at hd
        obtain ⟨d₁, hreg, hrest⟩ := Option.bind_eq_some_iff.1 hd
        exact ih d₁ (hok.registerNetScene hreg) hrest
  unfold build at h
  rw [new_eq, Option.bind_some] at h
  exact hfold scenes reservedDispatcher ok_reservedDispatcher h

/-! ## Finding a scene -/

/-- The scene at its type. -/
theorem Ok.getElem?_of_registered {d : Dispatcher} (h : d.Ok) {scene : NetSceneImpl}
    (hreg : d.Registered scene) :
    ∃ i : Nat, scene.type = i ∧ d.selectors[i]? = some (some scene) := by
  obtain ⟨i, hi⟩ := List.mem_iff_getElem?.1 hreg
  exact ⟨i, h.typed i scene hi, hi⟩

theorem Ok.toSizeT {d : Dispatcher} (h : d.Ok) {type : Int} (hint : IsInt type) :
    (∃ i : Nat, type = i ∧ i < d.selectors.length ∧ Str.toSizeT type = i) ∨
      d.selectors.length ≤ Str.toSizeT type ∧ ∀ i : Nat, type = i → d.selectors.length ≤ i := by
  have hbounded := h.bounded
  unfold IsInt at hint
  unfold Str.toSizeT
  by_cases hneg : type < 0
  · right
    constructor
    · omega
    · intro i hi
      omega
  · by_cases hlt : type < d.selectors.length
    · exact Or.inl ⟨type.toNat, by omega, by omega, by omega⟩
    · right
      constructor
      · omega
      · intro i hi
        omega

/-- A type for which there is a scene. -/
theorem Ok.makeNetScene_registered {d : Dispatcher} (h : d.Ok) {scene : NetSceneImpl}
    (hreg : d.Registered scene) : d.makeNetScene scene.type = some scene := by
  obtain ⟨i, htype, hget⟩ := h.getElem?_of_registered hreg
  have hlt := (List.getElem?_eq_some_iff.1 hget).1
  rcases h.toSizeT scene.isInt with ⟨j, hj, hjlt, hsize⟩ | ⟨-, hbehind⟩
  · have hij : j = i := by omega
    unfold Dispatcher.makeNetScene
    rw [hsize, hij, if_neg (Nat.not_le.2 hlt), hget]
    exact if_pos rfl
  · exact absurd (hbehind i htype) (Nat.not_le.2 hlt)

/-- A padded type: the null pointer is followed. -/
theorem Ok.makeNetScene_padded {d : Dispatcher} (h : d.Ok) {type : Int} (hpadded : Padded type) :
    d.makeNetScene type = none := by
  obtain ⟨i, rfl⟩ : ∃ i : Nat, type = i := by
    have hlow : 3 < type := hpadded.1
    exact ⟨type.toNat, by omega⟩
  have hget := (h.padded i).2 hpadded
  have hlt := (List.getElem?_eq_some_iff.1 hget).1
  have hsize : Str.toSizeT i = i := by
    have hbounded := h.bounded
    unfold Str.toSizeT
    omega
  unfold Dispatcher.makeNetScene
  rw [hsize, if_neg (Nat.not_le.2 hlt), hget]

theorem isSome_of_finds {d : Dispatcher} {type : Int} (h : d.Finds type) :
    (d.makeNetScene type).isSome = true := by
  rcases h with ⟨scene, -, -, hscene⟩ | ⟨-, scene, -, hscene⟩
  · rw [hscene]
    rfl
  · rw [hscene]
    rfl

/-- **A scene is found** for every type but the padded ones. -/
theorem Ok.finds_iff {d : Dispatcher} (h : d.Ok) {type : Int} (hint : IsInt type) :
    d.Finds type ↔ ¬ Padded type := by
  have hreserved := h.reserved
  rcases h.toSizeT hint with ⟨i, rfl, hlt, hsize⟩ | ⟨hsize, hbehind⟩
  · cases hget : d.selectors[i]? with
    | none => exact absurd (List.getElem?_eq_none_iff.1 hget) (Nat.not_le.2 hlt)
    | some select =>
        cases select with
        | none =>
            have hpadded := (h.padded i).1 hget
            refine iff_of_false ?_ (not_not.2 hpadded)
            intro hfinds
            have hsome := isSome_of_finds hfinds
            rw [h.makeNetScene_padded hpadded] at hsome
            cases hsome
        | some scene =>
            have htype := h.typed i scene hget
            have hreg : d.Registered scene := List.mem_of_getElem? hget
            refine iff_of_true (Or.inl ⟨scene, hreg, htype, ?_⟩) ?_
            · rw [← htype]
              exact h.makeNetScene_registered hreg
            · intro hpadded
              rw [(h.padded i).2 hpadded] at hget
              cases hget
  · -- the type of no scene, and of no null pointer either
    have hmake : d.makeNetScene type = d.selectors[0]?.join := if_pos hsize
    refine iff_of_true (Or.inr ⟨?_, ?_⟩) ?_
    · rintro scene hreg rfl
      obtain ⟨i, htype, hget⟩ := h.getElem?_of_registered hreg
      exact absurd (List.getElem?_eq_some_iff.1 hget).1 (Nat.not_lt.2 (hbehind i htype))
    · cases hget : d.selectors[0]? with
      | none => exact absurd (List.getElem?_eq_none_iff.1 hget) (by omega)
      | some select =>
          cases select with
          | none => exact absurd ((h.padded 0).1 hget) (by decide)
          | some scene =>
              rw [hmake, hget]
              exact ⟨scene, rfl, rfl⟩
    · rintro ⟨hlow, hhigh⟩
      unfold kNetSceneTypeGetFavIcon at hlow
      have hle := hbehind type.toNat (by omega)
      omega

/-- **`__MakeNetScene`**, on every registry that can be built: the scene of the
type, or the first one if there is none, exactly when the type is not a padded
one. -/
theorem finds_iff_not_padded {scenes : List NetSceneImpl} {d : Dispatcher}
    (hbuild : build scenes = some d) {type : Int} (hint : IsInt type) :
    d.Finds type ↔ ¬ Padded type :=
  (ok_of_built hbuild).finds_iff hint

/-- A scene of an application. -/
def netSceneCustom : NetSceneImpl := ⟨11, false, some (lit "/custom/*"), by decide⟩

theorem finds_custom : ∃ d, build [netSceneCustom] = some d ∧ d.Finds 11 := by
  have hbuilt : (build [netSceneCustom]).isSome = true := by decide +kernel
  obtain ⟨d, hd⟩ := Option.isSome_iff_exists.1 hbuilt
  exact ⟨d, hd, (finds_iff_not_padded hd (by decide)).2 (by decide)⟩

theorem not_finds_padded : ∃ d, build [netSceneCustom] = some d ∧ ¬ d.Finds 4 := by
  have hmake : ∃ d ∈ build [netSceneCustom], d.makeNetScene 4 = none := by decide +kernel
  obtain ⟨d, hd, hnone⟩ := hmake
  refine ⟨d, hd, ?_⟩
  intro hfinds
  have hsome := isSome_of_finds hfinds
  rw [hnone] at hsome
  cases hsome

/-! ## Requests -/

/-- `__DynamicRouteMatch`: a route that ends with a star stands for all routes
that start with the rest of it and are not shorter. -/
def dynamicRouteMatch (dynamic route : Bytes) : Bool :=
  if dynamic.getLast? ≠ some 42 then false
  else if dynamic.length > route.length then false
  else dynamic.dropLast.isPrefixOf route

/-- `__GetNetSceneTypeByRoute`. -/
def getNetSceneTypeByRoute (d : Dispatcher) (fullUrl : Bytes) : Int :=
  let route := fullUrl.takeWhile (· ≠ 63)
  match d.routeType route with
  | some type => type
  | none =>
      match d.routeMap.entries.find? fun e => dynamicRouteMatch e.1 route with
      | some e => e.2
      | none => kNetSceneType404NotFound

end Dispatcher

/-- `BaseNetSceneReq`, parsed. -/
structure BaseNetSceneReq where
  netSceneType : Option Int
  netSceneReqBuff : Option Bytes
  isInt : ∀ type ∈ netSceneType, IsInt type

/-- What `HandleHttp` reads of a request. -/
structure HttpRequest where
  isMethodPost : Bool
  url : Bytes
  body : Bytes

namespace Dispatcher

variable (parse : Bytes → BaseNetSceneReq)

/-- `type` and `req_buffer` of `HandleHttp`. -/
def selectScene (d : Dispatcher) (req : HttpRequest) : Int × Bytes :=
  let type := d.getNetSceneTypeByRoute req.url
  if !req.isMethodPost then (type, [])
  else if type ≠ kNetSceneType404NotFound then (type, req.body)
  else if req.body = [] then (type, [])
  else
    match (parse req.body).netSceneType with
    | none => (type, [])
    | some type => (type, (parse req.body).netSceneReqBuff.getD [])

/-- `HandleHttp`: the scene and the argument of its `DoScene`. -/
def handleHttp (d : Dispatcher) (req : HttpRequest) : Option (NetSceneImpl × Bytes) :=
  (d.makeNetScene (d.selectScene parse req).1).map fun scene =>
    (scene, if req.isMethodPost then (d.selectScene parse req).2 else req.url)

/-- A POST off all routes whose body asks for a padded type. -/
def AsksForPadded (d : Dispatcher) (req : HttpRequest) : Prop :=
  req.isMethodPost = true ∧ d.getNetSceneTypeByRoute req.url = kNetSceneType404NotFound ∧
    req.body ≠ [] ∧ ∃ type ∈ (parse req.body).netSceneType, Padded type

/-- Every route leads to a scene. -/
theorem Ok.getNetSceneTypeByRoute {d : Dispatcher} (h : d.Ok) (fullUrl : Bytes) :
    ∃ scene, d.Registered scene ∧ scene.type = d.getNetSceneTypeByRoute fullUrl := by
  unfold Dispatcher.getNetSceneTypeByRoute
  dsimp only
  split
  · rename_i type htype
    obtain ⟨e, he, rfl⟩ := Option.map_eq_some_iff.1 htype
    exact h.routed e (List.mem_of_find?_eq_some he)
  · split
    · rename_i e he
      exact h.routed e (List.mem_of_find?_eq_some he)
    · -- the scene of type 2 is not one of the null pointers
      have hreserved := h.reserved
      cases hget : d.selectors[2]? with
      | none =>
          have hshort := List.getElem?_eq_none_iff.1 hget
          unfold kReservedTypeOffset at hreserved
          omega
      | some select =>
          cases select with
          | none => exact absurd ((h.padded 2).1 hget) (by decide)
          | some scene => exact ⟨scene, List.mem_of_getElem? hget, h.typed 2 scene hget⟩

/-- **A request gets a scene** unless it is a POST off all routes whose body
asks for a padded type. -/
theorem handleHttp_iff {scenes : List NetSceneImpl} {d : Dispatcher}
    (hbuild : build scenes = some d) (req : HttpRequest) :
    (d.handleHttp parse req).isSome = true ↔ ¬ d.AsksForPadded parse req := by
  have hok := ok_of_built hbuild
  obtain ⟨scene, hreg, htype⟩ := hok.getNetSceneTypeByRoute req.url
  have hroute : (d.makeNetScene (d.getNetSceneTypeByRoute req.url)).isSome = true := by
    rw [← htype, hok.makeNetScene_registered hreg]
    rfl
  unfold Dispatcher.handleHttp
  rw [Option.isSome_map]
  unfold selectScene AsksForPadded
  dsimp only
  split
  · rename_i hget
    refine iff_of_true hroute ?_
    rintro ⟨hpost, -⟩
    rw [hpost] at hget
    cases hget
  · split
    · rename_i hrouted
      exact iff_of_true hroute fun h => hrouted h.2.1
    · split
      · rename_i hempty
        exact iff_of_true hroute fun h => h.2.2.1 hempty
      · rename_i hpost hoff hbody
        split
        · rename_i hnone
          refine iff_of_true hroute ?_
          rintro ⟨-, -, -, type, hmem, -⟩
          rw [hnone] at hmem
          cases hmem
        · rename_i type hsome
          have hint := (parse req.body).isInt type hsome
          constructor
          · rintro hmake ⟨-, -, -, type', hmem, hpadded⟩
            rw [hsome] at hmem
            cases hmem
            rw [hok.makeNetScene_padded hpadded] at hmake
            cases hmake
          · intro hasks
            apply isSome_of_finds
            rw [hok.finds_iff hint]
            intro hpadded
            apply hasks
            exact ⟨by simpa using hpost, not_not.1 hoff, hbody, type, hsome, hpadded⟩

end Dispatcher

end Unixtar.NetScene
