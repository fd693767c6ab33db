import Doci.JsonValues

/-! `LLMConfig.from_env` and the keyword arguments of `build_chat_model`. -/

namespace Doci

/-- What the configuration takes from the process and from the standard library: the
environment, `str.upper` and `str.lower`, the readings of numbers and of a JSON object, which
holds neither NaN nor infinities. -/
structure Environment where
  getenv : String → Option String
  upper : String → String
  lower : String → String
  int : String → Option Int
  float : String → Option ℚ
  loads : String → Option Dict

structure LLMConfig where
  model : String
  baseUrl : Option String := none
  apiKey : Option String := none
  maxTokens : Int := 4096
  timeout : Int := 60
  maxRetries : Int := 2
  temperature : Option ℚ := none
  extraParams : Dict := []

structure TaskDefaults where
  model : String
  maxTokens : Int := 4096
  params : Dict := []

/-- `value or other`. -/
def orElse (value : Option String) (other : Option String) : Option String :=
  match value with
  | some s => if s = "" then other else some s
  | none => other

section Build

variable (env : Environment) (task : String) (defaults : TaskDefaults)

/-- `_e`: the task's variable, then the shared one, then the default. -/
def envField (name : String) (default : Option String) : Option String :=
  orElse (env.getenv ("DOCI_LLM_" ++ env.upper task ++ "_" ++ name))
    (orElse (env.getenv ("DOCI_LLM_" ++ name)) default)

def envInt (name : String) (default : Int) : Option Int :=
  match envField env task name none with
  | some text => env.int text
  | none => some default

/-- `from_env`; `none` stands for the error of a value that cannot be read. The defaults of
PARAMS come back from `json.loads(json.dumps(...))` as they are. -/
def LLMConfig.fromEnv : Option LLMConfig := do
  let maxTokens ← envInt env task "MAX_TOKENS" defaults.maxTokens
  let timeout ← envInt env task "TIMEOUT" 60
  let maxRetries ← envInt env task "MAX_RETRIES" 2
  let temperature ← match envField env task "TEMPERATURE" none with
    | some text => (env.float text).map some
    | none => some none
  let extraParams ← match envField env task "PARAMS" none with
    | some text => env.loads text
    | none => some defaults.params
  return { model := (envField env task "MODEL" (some defaults.model)).getD defaults.model
           baseUrl := orElse (envField env task "BASE_URL" none) (env.getenv "OPENAI_BASE_URL")
           apiKey := envField env task "API_KEY" none
           maxTokens, timeout, maxRetries, temperature, extraParams }

/-- A key of a dictionary that is made of JSON: numbers that are equal are one key. -/
inductive DictKey where
  | null
  | number (q : ℚ)
  | text (s : String)
  deriving DecidableEq

/-- A list or an object is no key. -/
def DictKey.ofJson : Json → Option DictKey
  | .null => some null
  | .bool b => some (number (if b then 1 else 0))
  | .int n => some (number n)
  | .real q => some (number q)
  | .str s => some (text s)
  | .arr _ => none
  | .obj _ => none

/-- An element that `dict(...)` takes for a key and its value. -/
def pairOf : Json → Option (DictKey × Json)
  | .arr [k, v] => (DictKey.ofJson k).map fun k => (k, v)
  | .obj [(k, _), (k', _)] => some (.text k, .str k')
  | .str s =>
    match s.toList with
    | [k, v] => some (.text (String.ofList [k]), .str (String.ofList [v]))
    | _ => none
  | _ => none

/-- `dict(value)`; a later pair replaces an earlier one. -/
def dictOf : Json → Option (Dict DictKey)
  | .obj entries => some (entries.map fun e => (.text e.1, e.2))
  | .arr items => (items.mapM pairOf).map List.reverse
  | .str s => if s = "" then some [] else none
  | _ => none

/-- `dict(extra.pop("model_kwargs", {}))`. -/
def modelKwargsOf (extra : Dict) : Option (Dict DictKey) :=
  match extra.get "model_kwargs" with
  | some value => dictOf value
  | none => some []

/-- A keyword argument: a JSON value, or the dictionary of `model_kwargs`. -/
inductive Argument where
  | json (value : Json)
  | dict (entries : Dict DictKey)

abbrev Kwargs := Dict String Argument

/-- The keyword arguments from the settings other than PARAMS. -/
def settingKwargs (config : LLMConfig) : Dict :=
  let kwargs : Dict := [("max_tokens", .int config.maxTokens), ("timeout", .int config.timeout),
    ("max_retries", .int config.maxRetries)]
  let kwargs := match orElse config.baseUrl none with
    | some url => kwargs.set "base_url" (.str url)
    | none => kwargs
  let kwargs := match orElse config.apiKey none with
    | some key => kwargs.set "api_key" (.str key)
    | none => kwargs
  match config.temperature with
  | some t => kwargs.set "temperature" (.real t)
  | none => kwargs

/-- `cache_key if cache_key is not None else extra.pop("prompt_cache_key", None)`, with what
is left of `extra`. -/
def takeKey (cacheKey : Option String) (extra : Dict) : Json × Dict :=
  match cacheKey with
  | some key => (.str key, extra)
  | none => ((extra.get "prompt_cache_key").getD .null, extra.remove "prompt_cache_key")

def keyOrDefault : Json → Json
  | .null => .str ("doci:" ++ env.lower task)
  | key => key

def jsonKwargs (d : Dict) : Kwargs := d.map fun e => (e.1, .json e.2)

/-- The keyword arguments that `build_chat_model` passes on. -/
def chatKwargs (config : LLMConfig) (cacheKey : Option String) : Option Kwargs :=
  (modelKwargsOf config.extraParams).map fun given =>
    let taken := takeKey cacheKey (config.extraParams.remove "model_kwargs")
    let key := keyOrDefault env task taken.1
    let modelKwargs := if key.truthy then given.set (.text "prompt_cache_key") key else given
    let kwargs := if modelKwargs.isEmpty then jsonKwargs (settingKwargs config)
      else (jsonKwargs (settingKwargs config)).set "model_kwargs" (.dict modelKwargs)
    kwargs.update (jsonKwargs taken.2)

/-- `init_chat_model(model, **kwargs)`: a keyword argument `model` is a second value for its first
one, which Python refuses. -/
def initChatModel (model : String) (kwargs : Kwargs) : Option (String × Kwargs) :=
  if (kwargs.get "model").isSome then none else some (model, kwargs)

/-- The model and the keyword arguments that it is made with. -/
def buildChatModel (cacheKey : Option String) : Option (String × Kwargs) := do
  let config ← LLMConfig.fromEnv env task defaults
  let kwargs ← chatKwargs env task config cacheKey
  initChatModel config.model kwargs

def insideModelKwargs (kwargs : Kwargs) : Dict DictKey :=
  match kwargs.get "model_kwargs" with
  | some (.dict entries) => entries
  | _ => []

/-- The key by precedence: the argument, the entry of PARAMS, the default of the task. -/
def resolvedKey (cacheKey : Option String) (params : Dict) : Json :=
  match cacheKey with
  | some key => .str key
  | none => (params.get "prompt_cache_key").getD (.str ("doci:" ++ env.lower task))

/-- The cache key stands inside `model_kwargs` only, by precedence and unless it is empty, and
the other entries of PARAMS are passed on. -/
def OneCacheKey (cacheKey : Option String) (params : Dict) (kwargs : Kwargs) : Prop :=
  kwargs.get "prompt_cache_key" = none ∧
    (insideModelKwargs kwargs).get (.text "prompt_cache_key") =
      (if (resolvedKey env task cacheKey params).truthy then some (resolvedKey env task cacheKey params)
        else none) ∧
    (∀ name value, name ≠ "prompt_cache_key" → name ≠ "model_kwargs" →
      params.get name = some value → kwargs.get name = some (.json value)) ∧
    ∀ given, modelKwargsOf params = some given → ∀ key, key ≠ .text "prompt_cache_key" →
      (insideModelKwargs kwargs).get key = given.get key

/-- PARAMS in which the cache key is found and cleared as the comments of the code say, and which
name no model. -/
def CleanKeys (cacheKey : Option String) (params : Dict) : Prop :=
  params.get "model" = none ∧ (cacheKey = none ∨ params.get "prompt_cache_key" = none) ∧
    params.get "prompt_cache_key" ≠ some .null ∧
    ∃ given, modelKwargsOf params = some given ∧ ((resolvedKey env task cacheKey params).truthy = true ∨
      given.get (.text "prompt_cache_key") = none)

end Build

section CacheKey

variable {env : Environment} {task : String} {config : LLMConfig} {cacheKey : Option String}
  {given : Dict DictKey}

theorem settingKwargs_get {name : String}
    (h : name ∉ ["temperature", "api_key", "base_url", "max_tokens", "timeout", "max_retries"]) :
    (settingKwargs config).get name = none := by
  simp only [List.mem_cons, List.not_mem_nil, or_false, not_or] at h
  obtain ⟨htemp, hapi, hurl, htokens, htimeout, hretries⟩ := h
  have hplain : Dict.get [("max_tokens", Json.int config.maxTokens), ("timeout", .int config.timeout),
      ("max_retries", .int config.maxRetries)] name = none := by
    simp [Dict.get, List.lookup_cons, beq_eq_false_iff_ne.mpr htokens, beq_eq_false_iff_ne.mpr htimeout,
      beq_eq_false_iff_ne.mpr hretries]
  unfold settingKwargs
  cases orElse config.baseUrl none <;> cases orElse config.apiKey none <;> cases config.temperature <;>
    simp only [Dict.get_set_of_ne htemp, Dict.get_set_of_ne hapi, Dict.get_set_of_ne hurl, hplain]

theorem jsonKwargs_get (d : Dict) (name : String) : (jsonKwargs d).get name = (d.get name).map .json :=
  Dict.get_map Argument.json

def finalKey (env : Environment) (task : String) (cacheKey : Option String) (params : Dict) : Json :=
  keyOrDefault env task (takeKey cacheKey (params.remove "model_kwargs")).1

theorem takeKey_extra {params : Dict} {name : String} (h : name ≠ "model_kwargs") :
    (takeKey cacheKey (params.remove "model_kwargs")).2.get name =
      if cacheKey = none ∧ name = "prompt_cache_key" then none else params.get name := by
  cases cacheKey with
  | some key => simpa [takeKey] using Dict.get_remove_of_ne h
  | none =>
    by_cases hname : name = "prompt_cache_key"
    · simp [takeKey, hname]
    · rw [if_neg fun hc => hname hc.2]
      exact (Dict.get_remove_of_ne hname).trans (Dict.get_remove_of_ne h)

theorem takeKey_modelKwargs {params : Dict} :
    (takeKey cacheKey (params.remove "model_kwargs")).2.get "model_kwargs" = none := by
  cases cacheKey with
  | some key => exact Dict.get_remove_self
  | none => exact (Dict.get_remove_of_ne (by decide)).trans Dict.get_remove_self

/-- Without an argument the key that is used is the entry of PARAMS, if it is not null. -/
theorem finalKey_eq {params : Dict} (h : params.get "prompt_cache_key" ≠ some .null) :
    finalKey env task cacheKey params = resolvedKey env task cacheKey params := by
  cases cacheKey with
  | some key => rfl
  | none =>
    have hget : (params.remove "model_kwargs").get "prompt_cache_key" = params.get "prompt_cache_key" :=
      Dict.get_remove_of_ne (by decide)
    rw [finalKey, takeKey, hget, resolvedKey]
    cases hkey : params.get "prompt_cache_key" with
    | none => rfl
    | some key =>
      cases key with
      | null => exact absurd hkey h
      | _ => rfl

theorem truthy_default (env : Environment) (task : String) :
    (Json.str ("doci:" ++ env.lower task)).truthy = true := by
  simp [Json.truthy]

theorem finalKey_null {params : Dict} (h : params.get "prompt_cache_key" = some .null) :
    finalKey env task none params = .str ("doci:" ++ env.lower task) := by
  have hget : (params.remove "model_kwargs").get "prompt_cache_key" = some .null :=
    (Dict.get_remove_of_ne (by decide)).trans h
  rw [finalKey, takeKey, hget]
  rfl

/-- What the keyword arguments hold under the names that matter and under all others. -/
theorem chatKwargs_spec (h : modelKwargsOf config.extraParams = some given) :
    ∃ kwargs, chatKwargs env task config cacheKey = some kwargs ∧
      kwargs.get "prompt_cache_key" = (if cacheKey = none then none else
        (config.extraParams.get "prompt_cache_key").map .json) ∧
      kwargs.get "model" = (config.extraParams.get "model").map .json ∧
      insideModelKwargs kwargs =
        (if (finalKey env task cacheKey config.extraParams).truthy then
          given.set (.text "prompt_cache_key") (finalKey env task cacheKey config.extraParams)
        else given) ∧
      ∀ name value, name ≠ "prompt_cache_key" → name ≠ "model_kwargs" →
        config.extraParams.get name = some value → kwargs.get name = some (.json value) := by
  rw [chatKwargs, h]
  have hbase : ∀ (modelKwargs : Dict DictKey) (name : String), name ≠ "model_kwargs" →
      (settingKwargs config).get name = none →
      (if modelKwargs.isEmpty then jsonKwargs (settingKwargs config)
        else (jsonKwargs (settingKwargs config)).set "model_kwargs" (.dict modelKwargs)).get name = none := by
    intro modelKwargs name hname hget
    have hplain : (jsonKwargs (settingKwargs config)).get name = none := by
      rw [jsonKwargs_get, hget, Option.map_none]
    split
    · exact hplain
    · exact (Dict.get_set_of_ne hname).trans hplain
  refine ⟨_, rfl, ?_, ?_, ?_, fun name value hkey hmodel hget => ?_⟩
  · dsimp only
    rw [Dict.get_update, hbase _ _ (by decide) (settingKwargs_get (by decide)), Option.or_none,
      jsonKwargs_get, takeKey_extra (by decide)]
    split_ifs with h' h' h' <;> simp_all
  · dsimp only
    rw [Dict.get_update, hbase _ _ (by decide) (settingKwargs_get (by decide)), Option.or_none,
      jsonKwargs_get, takeKey_extra (by decide), if_neg (by simp)]
  · dsimp only
    rw [insideModelKwargs, Dict.get_update, jsonKwargs_get, takeKey_modelKwargs, Option.map_none,
      Option.none_or, ← finalKey]
    generalize (if (finalKey env task cacheKey config.extraParams).truthy then
      given.set (.text "prompt_cache_key") (finalKey env task cacheKey config.extraParams)
        else given) = modelKwargs
    cases modelKwargs with
    | nil =>
      rw [List.isEmpty_nil, if_pos rfl, jsonKwargs_get, settingKwargs_get (by decide), Option.map_none]
    | cons e modelKwargs => rw [List.isEmpty_cons, if_neg Bool.false_ne_true, Dict.get_set_self]
  · dsimp only
    rw [Dict.get_update, jsonKwargs_get, takeKey_extra hmodel, if_neg fun hc => hkey hc.2, hget]
    rfl

theorem insideModelKwargs_key {params : Dict} (hnull : params.get "prompt_cache_key" ≠ some .null) :
    Dict.get (if (finalKey env task cacheKey params).truthy then
        given.set (.text "prompt_cache_key") (finalKey env task cacheKey params) else given)
          (.text "prompt_cache_key") =
      (if (resolvedKey env task cacheKey params).truthy then some (resolvedKey env task cacheKey params)
        else given.get (.text "prompt_cache_key")) := by
  rw [finalKey_eq hnull]
  by_cases htrue : (resolvedKey env task cacheKey params).truthy = true
  · rw [if_pos htrue, if_pos htrue, Dict.get_set_self]
  · rw [if_neg htrue, if_neg htrue]

/-- The call is made where `model_kwargs` converts and no second model is named. -/
theorem initChatModel_chatKwargs {model : String} {called : String × Kwargs} :
    (chatKwargs env task config cacheKey).bind (initChatModel model) = some called ↔
      config.extraParams.get "model" = none ∧
        ∃ kwargs, chatKwargs env task config cacheKey = some kwargs ∧ called = (model, kwargs) := by
  cases hgiven : modelKwargsOf config.extraParams with
  | none => simp [chatKwargs, hgiven]
  | some given =>
    obtain ⟨kwargs, hkwargs, -, hmodel, -⟩ :=
      @chatKwargs_spec env task config cacheKey given hgiven
    rw [hkwargs, Option.bind_some, initChatModel, hmodel]
    cases config.extraParams.get "model" with
    | none => simp [eq_comm]
    | some value => simp

theorem oneCacheKey_iff :
    (∃ kwargs, (chatKwargs env task config cacheKey).bind (initChatModel config.model) =
          some (config.model, kwargs) ∧
        OneCacheKey env task cacheKey config.extraParams kwargs) ↔
      CleanKeys env task cacheKey config.extraParams := by
  simp only [initChatModel_chatKwargs, Prod.mk.injEq, true_and]
  cases hgiven : modelKwargsOf config.extraParams with
  | none =>
    constructor
    · rintro ⟨_, ⟨-, kwargs, hkwargs, -⟩, -⟩
      rw [chatKwargs, hgiven] at hkwargs
      cases hkwargs
    · rintro ⟨-, -, -, given, hsome, -⟩
      rw [hgiven] at hsome
      cases hsome
  | some given =>
    have hspec := @chatKwargs_spec env task config cacheKey given hgiven
    obtain ⟨kwargs, hkwargs, htop, -, hinside, hrest⟩ := hspec
    constructor
    · rintro ⟨_, ⟨hmodel, _, hkwargs', rfl⟩, hnone, hresolved, -, -⟩
      obtain rfl := Option.some.inj (hkwargs.symm.trans hkwargs')
      have hone : cacheKey = none ∨ config.extraParams.get "prompt_cache_key" = none := by
        by_cases harg : cacheKey = none
        · exact .inl harg
        · rw [hnone, if_neg harg] at htop
          exact .inr (Option.map_eq_none_iff.mp htop.symm)
      have hnull : config.extraParams.get "prompt_cache_key" ≠ some .null := by
        intro hnull
        rcases hone with rfl | hmissing
        · rw [hinside, finalKey_null hnull, if_pos (truthy_default env task), Dict.get_set_self,
            resolvedKey, hnull] at hresolved
          cases hresolved
        · rw [hmissing] at hnull
          cases hnull
      refine ⟨hmodel, hone, hnull, given, hgiven, ?_⟩
      by_cases htrue : (resolvedKey env task cacheKey config.extraParams).truthy = true
      · exact .inl htrue
      · rw [hinside, insideModelKwargs_key hnull, if_neg htrue, if_neg htrue] at hresolved
        exact .inr hresolved
    · rintro ⟨hmodel, hone, hnull, _, hgiven', hempty⟩
      obtain rfl := Option.some.inj (hgiven.symm.trans hgiven')
      refine ⟨kwargs, ⟨hmodel, kwargs, hkwargs, rfl⟩, ?_, ?_, hrest, ?_⟩
      · rw [htop]
        rcases hone with rfl | hmissing
        · rw [if_pos rfl]
        · rw [hmissing, Option.map_none, ite_self]
      · rw [hinside, insideModelKwargs_key hnull]
        rcases hempty with htrue | hmissing
        · rw [if_pos htrue, if_pos htrue]
        · rw [hmissing]
      · intro given' hgiven'' key hkey
        obtain rfl := Option.some.inj (hgiven.symm.trans hgiven'')
        rw [hinside]
        split
        · exact Dict.get_set_of_ne hkey
        · rfl

end CacheKey

/-- The process has those PARAMS and no other variable of the models. -/
def withParams (params : Dict) : Environment where
  getenv name := if name = "DOCI_LLM_PARAMS" then some "params" else none
  upper := id
  lower := id
  int _ := none
  float _ := none
  loads text := if text = "params" then some params else none

/-- An audit with its own cache key passes the key of PARAMS on beside it. -/
theorem env_key_leaks : ¬ ∃ kwargs,
    buildChatModel (withParams [("prompt_cache_key", .str "shared")]) "AUDIT"
        { model := "openai:gpt-5-mini" } (some "doci:audit:1") = some ("openai:gpt-5-mini", kwargs) ∧
      OneCacheKey (withParams [("prompt_cache_key", .str "shared")]) "AUDIT" (some "doci:audit:1")
        [("prompt_cache_key", .str "shared")] kwargs := by
  rintro ⟨kwargs, hbuild, hnone, -⟩
  have hkwargs : kwargs.get "prompt_cache_key" = some (.json (.str "shared")) := by
    have heq := (Prod.mk.inj (Option.some.inj hbuild)).2
    rw [← heq]
    rfl
  rw [hkwargs] at hnone
  cases hnone

/-- A model is built with one cache key exactly where PARAMS is clean. -/
theorem one_cache_key_iff (env : Environment) (task : String) (defaults : TaskDefaults)
    (cacheKey : Option String) (config : LLMConfig) (h : LLMConfig.fromEnv env task defaults = some config) :
    (∃ kwargs, buildChatModel env task defaults cacheKey = some (config.model, kwargs) ∧
        OneCacheKey env task cacheKey config.extraParams kwargs) ↔
      CleanKeys env task cacheKey config.extraParams := by
  rw [← oneCacheKey_iff]
  have hbuild : buildChatModel env task defaults cacheKey =
      (chatKwargs env task config cacheKey).bind (initChatModel config.model) := by
    rw [buildChatModel, h]
    rfl
  rw [hbuild]

/-- An audit's own cache key is put beside an entry of `model_kwargs` whose key is a number. -/
theorem one_cache_key_iff_numbered : ∃ kwargs,
    buildChatModel (withParams [("model_kwargs", .arr [.arr [.int 1, .int 2]]), ("seed", .int 7)])
        "AUDIT" { model := "openai:gpt-5-mini" } (some "doci:audit:1") =
          some ("openai:gpt-5-mini", kwargs) ∧
      OneCacheKey (withParams [("model_kwargs", .arr [.arr [.int 1, .int 2]]), ("seed", .int 7)])
        "AUDIT" (some "doci:audit:1")
        [("model_kwargs", .arr [.arr [.int 1, .int 2]]), ("seed", .int 7)] kwargs :=
  (one_cache_key_iff (withParams [("model_kwargs", .arr [.arr [.int 1, .int 2]]), ("seed", .int 7)])
    "AUDIT" { model := "openai:gpt-5-mini" } (some "doci:audit:1")
    { model := "openai:gpt-5-mini",
      extraParams := [("model_kwargs", .arr [.arr [.int 1, .int 2]]), ("seed", .int 7)] } (by rfl)).mpr
    ⟨rfl, .inr rfl, nofun, [(.number 1, .int 2)], rfl, .inl rfl⟩

end Doci
