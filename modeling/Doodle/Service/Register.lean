/-
  `Service.Register` of `service/service.go`, which fills the router and the document of a service.

  The router has a route under its method and URL, the document has a module under the bare name of
  the type, with the URL of the first type of that name. A run of successful calls is any sequence
  of types; `Registers` says what a call without an error may do to the service and to the paths
  that the HTTP server has taken.

  * `listsRoutes_iff`: after every run of successful calls the document lists exactly the routes,
    each with the fields of its own method, exactly when any two types of one name that serve
    something have one URL.
-/
import Doodle.Lib.Runs
import Doodle.Lib.Subst
import Doodle.Repeater.Reachable
import Doodle.Service.Document

namespace Doodle.Service.Document

open Doodle.Lib Doodle.Repeater

/-! ## The model -/

/-- The type of a registered object: its name and package, those of what it points to when it is a
    pointer, and its methods. A name is an identifier, or empty. -/
structure ObjType where
  typeName : String
  pkgPath : String
  elem : Option (String × String)
  method : Verb → Option GoMethod
  typeName_plain : '/' ∉ typeName.toList
  elem_plain : ∀ e, elem = some e → '/' ∉ e.1.toList

namespace ObjType

def name (t : ObjType) : String := (t.elem.map Prod.fst).getD t.typeName

def pkg (t : ObjType) : String := (t.elem.map Prod.snd).getD t.pkgPath

def url (b : Build) (t : ObjType) : String := registerUrl b.project t.pkg t.name

/-- The method that is put up for `v`. -/
def serves (t : ObjType) (v : Verb) : Option GoMethod := (t.method v).filter fun rm => rm.numIn == 3

end ObjType

/-- `strings.ToUpper` of the method's name. -/
def Verb.upper : Verb → String
  | .get => "GET"
  | .post => "POST"
  | .put => "PUT"
  | .delete => "DELETE"

/-- `method+path` -/
def routeKey (v : Verb) (url : String) : String := v.upper ++ url

/-- The keys of the HTTP server's `path`, the service's `router` and its `doc`. -/
structure State where
  path : String → Bool
  router : String → Option GoMethod
  modules : Modules

/-- A service just made. -/
def newState (path : String → Bool) : State := ⟨path, fun _ => none, fun _ => none⟩

/-- `RegisterHandler` without an error, and `router.add`. -/
def State.addRoute (s : State) (key : String) (rm : GoMethod) (modules : Modules) : State :=
  ⟨fun k => if k = key then true else s.path k,
    fun k => if k = key then some rm else s.router k, modules⟩

/-- One round of the loop of `Register`, without an error. -/
def RegistersVerb (b : Build) (t : ObjType) (v : Verb) (s s' : State) : Prop :=
  match t.method v with
  | none => s' = s
  | some rm =>
    if rm.numIn = 3 then
      s.path (routeKey v (t.url b)) = false ∧
        ∃ modules, Adds b t.name (t.url b) v rm s.modules modules ∧
          s' = s.addRoute (routeKey v (t.url b)) rm modules
    else s' = s

def verbs : List Verb := [.get, .post, .put, .delete]

/-- `Register(obj)` returned nil. -/
def Registers (b : Build) (t : ObjType) : State → State → Prop := RelRun (RegistersVerb b t) verbs

/-! ## The property -/

/-- A method with the fields that `rm` alone is described by. -/
def Documented (rm : GoMethod) (m : Method) : Prop :=
  Describes rm.in1 [] m.request ∧ Describes rm.in2 [] m.response

/-- The document lists the routes, each with the fields of its own method. -/
structure ListsRoutes (s : State) : Prop where
  pairs : ∀ v url, (∃ n md, s.modules n = some md ∧ md.url = url ∧ (md.methods v).isSome) ↔
    (s.router (routeKey v url)).isSome
  fields : ∀ n md v m, s.modules n = some md → md.methods v = some m →
    ∃ rm, s.router (routeKey v md.url) = some rm ∧ Documented rm m

/-- Two types of one name, both with something to serve, have one URL. -/
def NamesAgree (b : Build) (ts : List ObjType) : Prop :=
  ∀ t ∈ ts, ∀ t' ∈ ts, (∃ v, (t.serves v).isSome) → (∃ v, (t'.serves v).isSome) →
    t.name = t'.name → t.url b = t'.url b

/-! ## Keys and URLs -/

theorem routeKey_inj {v v' : Verb} {url url' : String} (h : routeKey v url = routeKey v' url') :
    v = v' ∧ url = url' := by
  have hlist : v.upper.toList ++ url.toList = v'.upper.toList ++ url'.toList := by
    rw [← String.toList_append, ← String.toList_append]
    exact congrArg String.toList h
  cases v <;> cases v' <;> simp [Verb.upper, String.toList_inj] at hlist ⊢ <;> exact hlist

theorem ObjType.slash_not_mem_name (t : ObjType) : '/' ∉ t.name.toList := by
  unfold ObjType.name
  cases he : t.elem with
  | none => exact t.typeName_plain
  | some e => exact t.elem_plain e he

/-- The name is what stands between the last two slashes of the URL. -/
theorem ObjType.name_eq_of_url {b : Build} {t t' : ObjType} (h : t.url b = t'.url b) :
    t.name = t'.name := by
  have hshape : ∀ t : ObjType, ∃ front : List Char,
      (t.url b).toList.reverse = '/' :: (t.name.toList.reverse ++ '/' :: front) := by
    intro t
    unfold ObjType.url registerUrl
    simp only [String.toList_append, List.reverse_append]
    exact ⟨_, rfl⟩
  obtain ⟨front, hf⟩ := hshape t
  obtain ⟨front', hf'⟩ := hshape t'
  rw [h, hf'] at hf
  have hno : ∀ t : ObjType, '/' ∉ t.name.toList.reverse := fun t hm =>
    t.slash_not_mem_name (List.mem_reverse.mp hm)
  have heq := ((append_cons_inj_of_not_mem (hno t') (hno t)).mp (List.cons.inj hf).2).1
  exact (String.toList_inj.mp (List.reverse_inj.mp heq)).symm

/-! ## One round -/

theorem registersVerb_cases {b : Build} {t : ObjType} {v : Verb} {s s' : State}
    (h : RegistersVerb b t v s s') :
    (t.serves v = none ∧ s' = s) ∨
      ∃ rm modules, t.serves v = some rm ∧ s.path (routeKey v (t.url b)) = false ∧
        Adds b t.name (t.url b) v rm s.modules modules ∧
        s' = s.addRoute (routeKey v (t.url b)) rm modules := by
  unfold RegistersVerb at h
  unfold ObjType.serves
  cases hm : t.method v with
  | none =>
    rw [hm] at h
    exact Or.inl ⟨rfl, h⟩
  | some rm =>
    rw [hm] at h
    by_cases hin : rm.numIn = 3
    · simp only [hin, if_true] at h
      obtain ⟨hfree, modules, hadds, hs'⟩ := h
      exact Or.inr ⟨rm, modules, by simp [Option.filter, hin], hfree, hadds, hs'⟩
    · simp only [hin, if_false] at h
      exact Or.inl ⟨by simp [Option.filter, hin], h⟩

/-! ## Rounds that put something up -/

/-- The rounds that put something up. -/
def Put (b : Build) (before : List (ObjType × Verb)) (t : ObjType) (v : Verb) (url : String)
    (rm : GoMethod) : Prop :=
  (t, v) ∈ before ∧ t.serves v = some rm ∧ t.url b = url

theorem put_append {b : Build} {before : List (ObjType × Verb)} {t₀ t : ObjType} {v₀ v : Verb}
    {url : String} {rm : GoMethod} :
    Put b (before ++ [(t₀, v₀)]) t v url rm ↔
      Put b before t v url rm ∨ (t = t₀ ∧ v = v₀ ∧ t.serves v = some rm ∧ t.url b = url) := by
  unfold Put
  simp only [List.mem_append, List.mem_singleton, Prod.mk.injEq]
  tauto

theorem Put.append {b : Build} {before : List (ObjType × Verb)} {t : ObjType} {v : Verb}
    {url : String} {rm : GoMethod} (h : Put b before t v url rm) (round : ObjType × Verb) :
    Put b (before ++ [round]) t v url rm :=
  ⟨List.mem_append_left _ h.1, h.2⟩

/-- A round that puts nothing up. -/
theorem put_append_of_none {b : Build} {before : List (ObjType × Verb)} {t₀ t : ObjType}
    {v₀ v : Verb} {url : String} {rm : GoMethod} (hnone : t₀.serves v₀ = none) :
    Put b (before ++ [(t₀, v₀)]) t v url rm ↔ Put b before t v url rm := by
  rw [put_append]
  constructor
  · rintro (hp | ⟨rfl, rfl, hserves, -⟩)
    · exact hp
    · rw [hnone] at hserves
      cases hserves
  · exact Or.inl

/-! ## Modules -/

theorem moduleFor_url {d : Modules} {name : String} {md : Module} (h : d name = some md)
    (url : String) : (moduleFor d name url).url = md.url := by
  rw [moduleFor, h, Option.getD_some]

/-- A method of the module that `add` works on is one that was there. -/
theorem moduleFor_methods {d : Modules} {name url : String} {v : Verb} {m : Method} :
    (moduleFor d name url).methods v = some m ↔
      ∃ md, d name = some md ∧ md.methods v = some m := by
  cases hd : d name with
  | none => simp [moduleFor, hd]
  | some md => simp [moduleFor, hd]

/-- A module that has been touched is the one that was there, with its URL, or a new one. -/
theorem Adds.modules_cases {b : Build} {name url : String} {v : Verb} {rm : GoMethod}
    {d d' : Modules} (h : Adds b name url v rm d d') {n : String} {md : Module}
    (hmd : d' n = some md) :
    (n ≠ name ∧ d n = some md) ∨
      (n = name ∧ ∃ m, md = (moduleFor d name url).setMethod v m) := by
  obtain ⟨request, response, -, -, rfl⟩ := h
  simp only at hmd
  by_cases hn : n = name
  · rw [if_pos hn] at hmd
    exact Or.inr ⟨hn, _, (Option.some.inj hmd).symm⟩
  · rw [if_neg hn] at hmd
    exact Or.inl ⟨hn, hmd⟩

/-! ## What every run leaves: routes -/

/-- The router has the rounds that put something up, and the URL of a module is that of a type of
    its name. -/
structure Routed (b : Build) (before : List (ObjType × Verb)) (s : State) : Prop where
  router : ∀ v url rm, s.router (routeKey v url) = some rm ↔ ∃ t, Put b before t v url rm
  path : ∀ t v url rm, Put b before t v url rm → s.path (routeKey v url) = true
  modules : ∀ n md, s.modules n = some md → ∃ t v rm, Put b before t v md.url rm ∧ t.name = n

section Round

variable {b : Build} {before : List (ObjType × Verb)} {s : State} {t : ObjType} {v : Verb}
  {rm : GoMethod} {modules : Modules}

theorem Routed.silent (h : Routed b before s) (hnone : t.serves v = none) :
    Routed b (before ++ [(t, v)]) s := by
  constructor
  · intro v' url rm
    simp only [put_append_of_none hnone]
    exact h.router v' url rm
  · intro t' v' url rm hp
    exact h.path t' v' url rm ((put_append_of_none hnone).mp hp)
  · intro n md hmd
    obtain ⟨t', v', rm, hp, hn⟩ := h.modules n md hmd
    exact ⟨t', v', rm, hp.append _, hn⟩

/-- The new route is that of this round, as its key was free. -/
theorem Routed.router_addRoute (h : Routed b before s) (hrm : t.serves v = some rm)
    (hfree : s.path (routeKey v (t.url b)) = false) (v' : Verb) (url : String) (rm' : GoMethod) :
    (s.addRoute (routeKey v (t.url b)) rm modules).router (routeKey v' url) = some rm' ↔
      ∃ t', Put b (before ++ [(t, v)]) t' v' url rm' := by
  simp only [State.addRoute]
  by_cases hkey : routeKey v' url = routeKey v (t.url b)
  · obtain ⟨rfl, rfl⟩ := routeKey_inj hkey
    rw [if_pos rfl]
    constructor
    · intro hsome
      obtain rfl := Option.some.inj hsome
      exact ⟨t, put_append.mpr (Or.inr ⟨rfl, rfl, hrm, rfl⟩)⟩
    · rintro ⟨t', hp⟩
      rcases put_append.mp hp with hp | ⟨rfl, -, hserves, -⟩
      · rw [h.path t' v' _ rm' hp] at hfree
        cases hfree
      · rw [← hserves, hrm]
  · rw [if_neg hkey, h.router]
    refine exists_congr fun t' => ⟨fun hp => hp.append _, fun hp => ?_⟩
    rcases put_append.mp hp with hp | ⟨rfl, rfl, -, hurl⟩
    · exact hp
    · exact absurd (by rw [hurl]) hkey

theorem Routed.path_addRoute (h : Routed b before s) {t' : ObjType} {v' : Verb} {url : String}
    {rm' : GoMethod} (hp : Put b (before ++ [(t, v)]) t' v' url rm') :
    (s.addRoute (routeKey v (t.url b)) rm modules).path (routeKey v' url) = true := by
  simp only [State.addRoute]
  rcases put_append.mp hp with hp | ⟨rfl, rfl, -, rfl⟩
  · split
    · rfl
    · exact h.path t' v' url rm' hp
  · exact if_pos rfl

theorem Routed.modules_adds (h : Routed b before s) (hrm : t.serves v = some rm)
    (hadds : Adds b t.name (t.url b) v rm s.modules modules) {n : String} {md : Module}
    (hmd : modules n = some md) :
    ∃ t' v' rm', Put b (before ++ [(t, v)]) t' v' md.url rm' ∧ t'.name = n := by
  have hlift : ∀ md, s.modules n = some md →
      ∃ t' v' rm', Put b (before ++ [(t, v)]) t' v' md.url rm' ∧ t'.name = n := by
    intro md hd
    obtain ⟨t', v', rm', hp, hn⟩ := h.modules n md hd
    exact ⟨t', v', rm', hp.append _, hn⟩
  rcases hadds.modules_cases hmd with ⟨-, hold⟩ | ⟨rfl, m, rfl⟩
  · exact hlift md hold
  · rw [Module.setMethod]
    cases hd : s.modules t.name with
    | none =>
      refine ⟨t, v, rm, put_append.mpr (Or.inr ⟨rfl, rfl, hrm, ?_⟩), rfl⟩
      simp [moduleFor, hd]
    | some md =>
      rw [moduleFor_url hd]
      exact hlift md hd

theorem Routed.step {s' : State} (h : Routed b before s) (hstep : RegistersVerb b t v s s') :
    Routed b (before ++ [(t, v)]) s' := by
  rcases registersVerb_cases hstep with ⟨hnone, rfl⟩ | ⟨rm, modules, hrm, hfree, hadds, rfl⟩
  · exact h.silent hnone
  · exact ⟨h.router_addRoute hrm hfree, fun _ _ _ _ hp => h.path_addRoute hp,
      fun _ _ hmd => h.modules_adds hrm hadds hmd⟩

end Round

/-! ## What a run leaves when the names agree: the document -/

/-- Every round that put something up is documented, and every documented method is of one. -/
structure Listed (b : Build) (before : List (ObjType × Verb)) (s : State) : Prop where
  own : ∀ n md v m, s.modules n = some md → md.methods v = some m →
    ∃ t url rm, Put b before t v url rm ∧ t.name = n ∧ Documented rm m
  listed : ∀ t v url rm, Put b before t v url rm →
    ∃ md m, s.modules t.name = some md ∧ md.methods v = some m

/-- Rounds of one name put things up at one URL. -/
def Agree (b : Build) (before : List (ObjType × Verb)) : Prop :=
  ∀ t v url rm t' v' url' rm', Put b before t v url rm → Put b before t' v' url' rm' →
    t.name = t'.name → url = url'

section Document

variable {b : Build} {before : List (ObjType × Verb)} {s : State} {t : ObjType} {v : Verb}
  {rm : GoMethod} {modules : Modules}

theorem Listed.silent (h : Listed b before s) (hnone : t.serves v = none) :
    Listed b (before ++ [(t, v)]) s := by
  constructor
  · intro n md v' m hmd hm
    obtain ⟨t', url, rm, hp, hn, hdoc⟩ := h.own n md v' m hmd hm
    exact ⟨t', url, rm, hp.append _, hn, hdoc⟩
  · intro t' v' url rm hp
    exact h.listed t' v' url rm ((put_append_of_none hnone).mp hp)

/-- The method is documented for the first time: an earlier one of the name has the same URL. -/
theorem Listed.methods_eq_none (hr : Routed b before s) (h : Listed b before s)
    (ha : Agree b (before ++ [(t, v)])) (hnew : Put b (before ++ [(t, v)]) t v (t.url b) rm)
    (hfree : s.path (routeKey v (t.url b)) = false) :
    (moduleFor s.modules t.name (t.url b)).methods v = none := by
  cases hmethod : (moduleFor s.modules t.name (t.url b)).methods v with
  | none => rfl
  | some m =>
    obtain ⟨md, hd, hm⟩ := moduleFor_methods.mp hmethod
    obtain ⟨t', url, rm', hp, hn, -⟩ := h.own t.name md v m hd hm
    rw [ha t' v url rm' t v (t.url b) rm (hp.append _) hnew hn] at hp
    rw [hr.path t' v _ rm' hp] at hfree
    cases hfree

theorem Listed.own_adds (h : Listed b before s)
    (hnew : Put b (before ++ [(t, v)]) t v (t.url b) rm)
    (hfirst : (moduleFor s.modules t.name (t.url b)).methods v = none)
    (hadds : Adds b t.name (t.url b) v rm s.modules modules) {n : String} {md : Module} {u : Verb}
    {m : Method} (hmd : modules n = some md) (hm : md.methods u = some m) :
    ∃ t' url rm', Put b (before ++ [(t, v)]) t' u url rm' ∧ t'.name = n ∧ Documented rm' m := by
  have hlift : ∀ md, s.modules n = some md → md.methods u = some m →
      ∃ t' url rm', Put b (before ++ [(t, v)]) t' u url rm' ∧ t'.name = n ∧ Documented rm' m := by
    intro md hd hm
    obtain ⟨t', url, rm', hp, hn, hdoc⟩ := h.own n md u m hd hm
    exact ⟨t', url, rm', hp.append _, hn, hdoc⟩
  obtain ⟨request, response, hreq, hresp, rfl⟩ := hadds
  simp only [methodFor, hfirst, Option.getD_none] at hreq hresp
  by_cases hn : n = t.name
  · simp only [hn, if_true] at hmd
    obtain rfl := Option.some.inj hmd
    by_cases hu : u = v
    · simp only [Module.setMethod, hu, if_true, Option.some.injEq] at hm
      rw [← hm, hu]
      exact ⟨t, t.url b, rm, hnew, hn.symm, hreq, hresp⟩
    · simp only [Module.setMethod, hu, if_false] at hm
      obtain ⟨md, hd, hmethod⟩ := moduleFor_methods.mp hm
      exact hlift md (hn ▸ hd) hmethod
  · simp only [hn, if_false] at hmd
    exact hlift md hmd hm

theorem Listed.listed_adds (h : Listed b before s)
    (hadds : Adds b t.name (t.url b) v rm s.modules modules) {t' : ObjType} {u : Verb}
    {url : String} {rm' : GoMethod} (hp : Put b (before ++ [(t, v)]) t' u url rm') :
    ∃ md m, modules t'.name = some md ∧ md.methods u = some m := by
  obtain ⟨request, response, -, -, rfl⟩ := hadds
  simp only
  by_cases hn : t'.name = t.name
  · rw [if_pos hn]
    by_cases hu : u = v
    · exact ⟨_, _, rfl, if_pos hu⟩
    · rcases put_append.mp hp with hp | ⟨-, hv, -⟩
      · obtain ⟨md, m, hd, hm⟩ := h.listed t' u url rm' hp
        rw [hn] at hd
        exact ⟨_, m, rfl, (if_neg hu).trans (moduleFor_methods.mpr ⟨md, hd, hm⟩)⟩
      · exact absurd hv hu
  · rw [if_neg hn]
    rcases put_append.mp hp with hp | ⟨rfl, -⟩
    · exact h.listed t' u url rm' hp
    · exact absurd rfl hn

theorem Listed.step {s' : State} (hr : Routed b before s) (h : Listed b before s)
    (ha : Agree b (before ++ [(t, v)])) (hstep : RegistersVerb b t v s s') :
    Listed b (before ++ [(t, v)]) s' := by
  rcases registersVerb_cases hstep with ⟨hnone, rfl⟩ | ⟨rm, modules, hrm, hfree, hadds, rfl⟩
  · exact h.silent hnone
  · have hnew : Put b (before ++ [(t, v)]) t v (t.url b) rm :=
      put_append.mpr (Or.inr ⟨rfl, rfl, hrm, rfl⟩)
    have hfirst := Listed.methods_eq_none hr h ha hnew hfree
    exact ⟨fun _ _ _ _ hmd hm => h.own_adds hnew hfirst hadds hmd hm,
      fun _ _ _ _ hp => h.listed_adds hadds hp⟩

end Document

/-! ## Every run -/

/-- The rounds of a sequence of calls. -/
def rounds (ts : List ObjType) : List (ObjType × Verb) :=
  ts.flatMap fun t => verbs.map fun v => (t, v)

theorem mem_rounds {ts : List ObjType} {t : ObjType} {v : Verb} :
    (t, v) ∈ rounds ts ↔ t ∈ ts := by
  have hv : v ∈ verbs := by cases v <;> decide
  simp only [rounds, List.mem_flatMap, List.mem_map, Prod.mk.injEq]
  constructor
  · rintro ⟨t', ht', v', -, rfl, -⟩
    exact ht'
  · intro ht
    exact ⟨t, ht, v, hv, rfl, rfl⟩

theorem relRun_rounds {b : Build} {ts : List ObjType} {s s' : State}
    (h : RelRun (Registers b) ts s s') :
    RelRun (fun r : ObjType × Verb => RegistersVerb b r.1 r.2) (rounds ts) s s' := by
  have hmap : ∀ t (vs : List Verb) s s', RelRun (RegistersVerb b t) vs s s' →
      RelRun (fun r : ObjType × Verb => RegistersVerb b r.1 r.2) (vs.map fun v => (t, v)) s s' := by
    intro t vs
    induction vs with
    | nil => exact fun s s' h => h
    | cons v vs ih =>
      rintro s s' ⟨u, hv, hvs⟩
      exact ⟨u, hv, ih u s' hvs⟩
  rw [rounds, relRun_flatMap]
  induction ts generalizing s with
  | nil => exact h
  | cons t ts ih =>
    obtain ⟨u, ht, hts⟩ := h
    exact ⟨u, hmap t verbs s u ht, ih hts⟩

theorem agree_of_namesAgree {b : Build} {ts : List ObjType} (h : NamesAgree b ts)
    {before : List (ObjType × Verb)} (hb : before <+: rounds ts) : Agree b before := by
  rintro t v url rm t' v' url' rm' ⟨hm, hs, rfl⟩ ⟨hm', hs', rfl⟩ hn
  exact h t (mem_rounds.mp (hb.mem hm)) t' (mem_rounds.mp (hb.mem hm')) ⟨v, by rw [hs]; rfl⟩
    ⟨v', by rw [hs']; rfl⟩ hn

theorem routed_newState (b : Build) (path : String → Bool) : Routed b [] (newState path) := by
  constructor
  · intro v url rm
    constructor
    · intro h
      cases h
    · rintro ⟨t, hm, -⟩
      exact absurd hm List.not_mem_nil
  · rintro t v url rm ⟨hm, -⟩
    exact absurd hm List.not_mem_nil
  · intro n md h
    cases h

theorem listed_newState (b : Build) (path : String → Bool) : Listed b [] (newState path) := by
  constructor
  · intro n md v m h
    cases h
  · rintro t v url rm ⟨hm, -⟩
    exact absurd hm List.not_mem_nil

theorem routed_of_relRun {b : Build} {path : String → Bool} {ts : List ObjType} {s : State}
    (h : RelRun (Registers b) ts (newState path) s) : Routed b (rounds ts) s :=
  inv_of_relRun (rounds ts) (fun _ _ _ _ _ hr hstep => hr.step hstep) (routed_newState b path)
    (relRun_rounds h)

theorem Listed.listsRoutes {b : Build} {before : List (ObjType × Verb)} {s : State}
    (hr : Routed b before s) (h : Listed b before s) (ha : Agree b before) : ListsRoutes s := by
  -- the URL of a module is that of each of its methods
  have hurl : ∀ n md t v url rm, s.modules n = some md → Put b before t v url rm → t.name = n →
      url = md.url := by
    intro n md t v url rm hmd hp hn
    obtain ⟨t', v', rm', hp', hn'⟩ := hr.modules n md hmd
    exact ha t v url rm t' v' md.url rm' hp hp' (hn.trans hn'.symm)
  constructor
  · intro v url
    constructor
    · rintro ⟨n, md, hmd, rfl, hsome⟩
      obtain ⟨m, hm⟩ := Option.isSome_iff_exists.mp hsome
      obtain ⟨t, url, rm, hp, hn, -⟩ := h.own n md v m hmd hm
      obtain rfl := hurl n md t v url rm hmd hp hn
      rw [(hr.router v md.url rm).mpr ⟨t, hp⟩]
      rfl
    · intro hsome
      obtain ⟨rm, hrm⟩ := Option.isSome_iff_exists.mp hsome
      obtain ⟨t, hp⟩ := (hr.router v url rm).mp hrm
      obtain ⟨md, m, hmd, hm⟩ := h.listed t v url rm hp
      exact ⟨t.name, md, hmd, (hurl _ md t v url rm hmd hp rfl).symm, by rw [hm]; rfl⟩
  · intro n md v m hmd hm
    obtain ⟨t, url, rm, hp, hn, hdoc⟩ := h.own n md v m hmd hm
    obtain rfl := hurl n md t v url rm hmd hp hn
    exact ⟨rm, (hr.router v md.url rm).mpr ⟨t, hp⟩, hdoc⟩

theorem Routed.namesAgree {b : Build} {ts : List ObjType} {s : State}
    (hr : Routed b (rounds ts) s) (h : ListsRoutes s) : NamesAgree b ts := by
  -- the module that lists a type's route is the one of its name
  have hlist : ∀ t ∈ ts, (∃ v, (t.serves v).isSome) →
      ∃ md, s.modules t.name = some md ∧ md.url = t.url b := by
    rintro t ht ⟨v, hv⟩
    obtain ⟨rm, hrm⟩ := Option.isSome_iff_exists.mp hv
    have hroute := (hr.router v (t.url b) rm).mpr ⟨t, mem_rounds.mpr ht, hrm, rfl⟩
    obtain ⟨n, md, hmd, hurl, -⟩ := (h.pairs v (t.url b)).mpr (by rw [hroute]; rfl)
    obtain ⟨t', -, -, ⟨-, -, hurl'⟩, hn⟩ := hr.modules n md hmd
    have hname : t'.name = t.name := ObjType.name_eq_of_url (hurl'.trans hurl)
    rw [← hn, hname] at hmd
    exact ⟨md, hmd, hurl⟩
  intro t ht t' ht' hv hv' hn
  obtain ⟨md, hmd, hurl⟩ := hlist t ht hv
  obtain ⟨md', hmd', hurl'⟩ := hlist t' ht' hv'
  rw [hn, hmd'] at hmd
  rw [← hurl, ← hurl', Option.some.inj hmd]

/-! ## The main result -/

/-- A method without parameters. -/
def bareMethod : GoMethod := ⟨3, .struct "Request" [], .struct "Response" []⟩

/-- The type `Info` of a package, with the method `Get`. -/
def infoType (pkg : String) : ObjType where
  typeName := "Info"
  pkgPath := pkg
  elem := none
  method v := if v = .get then some bareMethod else none
  typeName_plain := by decide
  elem_plain := by simp

def userType (pkg : String) : ObjType :=
  { infoType pkg with typeName := "User", typeName_plain := by decide }

/-- The project `p`, without comments. -/
def plainBuild : Build := ⟨"p", fun _ => ""⟩

theorem describes_bare (text : String) : Describes (.struct text []) [] [] :=
  ⟨[], rfl, .stop (.done (by simp [keys])) .nil⟩

/-- What `Register` leaves of a type with such a `Get` that has no fields in the document yet. -/
def afterGet (t : ObjType) (s : State) : State :=
  let url := t.url plainBuild
  let md := moduleFor s.modules t.name url
  s.addRoute (routeKey .get url) bareMethod fun n =>
    if n = t.name then
      some (md.setMethod .get ⟨(methodFor plainBuild md t.name url .get).comment, [], []⟩)
    else s.modules n

theorem registers_get {t : ObjType}
    (ht : t.method = fun v => if v = .get then some bareMethod else none) (s : State)
    (hfree : s.path (routeKey .get (t.url plainBuild)) = false)
    (hbare : ∀ url, ∃ comment,
      methodFor plainBuild (moduleFor s.modules t.name url) t.name url .get = ⟨comment, [], []⟩) :
    Registers plainBuild t s (afterGet t s) := by
  have hidle : ∀ v, v ≠ .get → RegistersVerb plainBuild t v (afterGet t s) (afterGet t s) := by
    intro v hv
    simp only [RegistersVerb, ht, if_neg hv]
  refine ⟨_, ?_, _, hidle .post nofun, _, hidle .put nofun, _, hidle .delete nofun, rfl⟩
  obtain ⟨comment, hm⟩ := hbare (t.url plainBuild)
  simp only [RegistersVerb, ht, if_true]
  refine ⟨hfree, _, ⟨[], [], ?_, ?_, rfl⟩, rfl⟩
  · exact congrArg Method.request hm ▸ describes_bare "Request"
  · exact congrArg Method.response hm ▸ describes_bare "Response"

/-- After every sequence of successful `Register` calls the document lists exactly the service's
    routes, each with the fields of its own method, if and only if no two of the types that serve
    something have one name and different URLs. -/
theorem listsRoutes_iff (b : Build) (path : String → Bool) (ts : List ObjType) (s : State)
    (hrun : RelRun (Registers b) ts (newState path) s) : ListsRoutes s ↔ NamesAgree b ts := by
  have hr := routed_of_relRun hrun
  constructor
  · exact hr.namesAgree
  · intro hnames
    have hboth := inv_of_relRun (I := fun before s => Routed b before s ∧ Listed b before s)
      (rounds ts) (fun before a s t hb h hstep =>
        ⟨h.1.step hstep, h.2.step h.1 (agree_of_namesAgree hnames hb) hstep⟩)
      ⟨routed_newState b path, listed_newState b path⟩ (relRun_rounds hrun)
    exact hboth.2.listsRoutes hr (agree_of_namesAgree hnames List.prefix_rfl)

/-- Two types of one package. -/
theorem listsRoutes_iff_twoTypes :
    ∃ s, RelRun (Registers plainBuild) [infoType "p/a", userType "p/a"]
      (newState fun _ => false) s ∧ ListsRoutes s := by
  have hfirst : Registers plainBuild (infoType "p/a") (newState fun _ => false) _ :=
    registers_get rfl _ rfl fun _ => ⟨_, rfl⟩
  have hsecond : Registers plainBuild (userType "p/a")
      (afterGet (infoType "p/a") (newState fun _ => false)) _ :=
    registers_get rfl _ (by decide +kernel) fun _ => ⟨_, rfl⟩
  have hrun : RelRun (Registers plainBuild) [infoType "p/a", userType "p/a"]
      (newState fun _ => false) _ := ⟨_, hfirst, _, hsecond, rfl⟩
  refine ⟨_, hrun, (listsRoutes_iff _ _ _ _ hrun).mpr fun t ht t' ht' _ _ hn => ?_⟩
  simp only [List.mem_cons, List.not_mem_nil, or_false] at ht ht'
  rcases ht with rfl | rfl <;> rcases ht' with rfl | rfl
  · rfl
  · exact absurd hn (by decide)
  · exact absurd hn (by decide)
  · rfl

/-- Two packages of one project have a type `Info`: the second one's route is served, and not in
    the document. -/
theorem second_info_not_listed :
    ∃ s, RelRun (Registers plainBuild) [infoType "p/a", infoType "p/b"]
        (newState fun _ => false) s ∧
      (s.router "GET/b/Info/").isSome ∧ ¬ ListsRoutes s := by
  have hfirst : Registers plainBuild (infoType "p/a") (newState fun _ => false) _ :=
    registers_get rfl _ rfl fun _ => ⟨_, rfl⟩
  have hsecond : Registers plainBuild (infoType "p/b")
      (afterGet (infoType "p/a") (newState fun _ => false)) _ :=
    registers_get rfl _ (by decide +kernel) fun _ => ⟨_, rfl⟩
  have hrun : RelRun (Registers plainBuild) [infoType "p/a", infoType "p/b"]
      (newState fun _ => false) _ := ⟨_, hfirst, _, hsecond, rfl⟩
  refine ⟨_, hrun, by decide +kernel, fun h => ?_⟩
  have hurl := (routed_of_relRun hrun).namesAgree h (infoType "p/a") (by simp) (infoType "p/b")
    (by simp) ⟨.get, rfl⟩ ⟨.get, rfl⟩ rfl
  exact absurd hurl (by decide +kernel)

end Doodle.Service.Document
