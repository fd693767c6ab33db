import Doci.Checkpoint

/-! `doci/cache/cache.py` and the view URLs of `doci/media/service.py`: the processes have one key
value store between them and a store in memory each. -/

namespace Doci

open Expiring

inductive CacheMode where
  | kvThenMem
  | memOnly
  deriving DecidableEq

/-- `ticks` is the resolution of the clock, in which deadlines and the cooldown are. -/
structure CacheConfig where
  mode : CacheMode := .kvThenMem
  namespace_ : String := ""
  defaultTtl : Option Int := none
  cooldown : Nat
  kvPrefix : String := ""
  ticks : Nat

structure CacheInstance (V : Type) where
  mem : Keyspace String V := .empty
  kvDownUntil : Nat := 0

/-- `kv` holds JSON texts. -/
structure CacheState (V : Type) where
  now : Nat := 0
  kv : Keyspace String String := .empty
  instances : Nat → CacheInstance V := fun _ => {}

/-- A failed command may have taken effect. -/
inductive KvFate where
  | ok
  | failed (applied : Bool)

section Cache

variable {V : Type} (cfg : CacheConfig) (json : Codec V String) (i : Nat)

def CacheConfig.k (key : String) : String :=
  if cfg.namespace_ = "" then key else cfg.namespace_ ++ ":" ++ key

def CacheConfig.kvKey (k : String) : String := cfg.kvPrefix ++ k

/-- `_ttl`; it raises `ValueError` where this is `none`. -/
def CacheConfig.effectiveTtl (ttl : Option Int) : Option Nat :=
  match ttl.orElse fun _ => cfg.defaultTtl with
  | none => none
  | some eff => if eff ≤ 0 then none else some eff.toNat

def CacheState.update (c : CacheState V) (instance_ : CacheInstance V) : CacheState V :=
  { c with instances := Function.update c.instances i instance_ }

def CacheState.kvUp (c : CacheState V) : Bool :=
  cfg.mode = .kvThenMem ∧ (c.instances i).kvDownUntil ≤ c.now

def CacheState.trip (c : CacheState V) : CacheState V :=
  c.update i { c.instances i with kvDownUntil := c.now + cfg.cooldown }

def CacheState.memGet (c : CacheState V) (k : String) : Option V :=
  (c.instances i).mem.read c.now k

def CacheState.memSet (c : CacheState V) (k : String) (value : V) (ttl : Nat) : CacheState V :=
  c.update i { c.instances i with
    mem := (c.instances i).mem.set k (some ⟨value, some (c.now + ttl * cfg.ticks)⟩) }

def CacheState.memPop (c : CacheState V) (k : String) : CacheState V :=
  c.update i { c.instances i with mem := (c.instances i).mem.delete (· = k) }

def CacheState.setJson (c : CacheState V) (k : String) (value : V) (ttl : Nat) : CacheState V :=
  { c with
    kv := c.kv.set (cfg.kvKey k) (some ⟨json.encode value, some (c.now + ttl * cfg.ticks)⟩) }

def CacheState.kvDelete (c : CacheState V) (k : String) : CacheState V :=
  { c with kv := c.kv.delete (· = cfg.kvKey k) }

def CacheState.get (c : CacheState V) (key : String) (fate : KvFate) : Option V × CacheState V :=
  let k := cfg.k key
  if c.kvUp cfg i then
    match fate with
    | .ok => ((c.kv.read c.now (cfg.kvKey k)).map json.decode, c)
    | .failed _ => (c.memGet i k, c.trip cfg i)
  else (c.memGet i k, c)

/-- `none` is the `ValueError` of a time to live that is not positive. -/
def CacheState.set (c : CacheState V) (key : String) (value : Option V) (ttl : Option Int)
    (fate : KvFate) : Option (CacheState V) :=
  match value with
  | none => some c
  | some value =>
    (cfg.effectiveTtl ttl).map fun eff =>
      let k := cfg.k key
      if c.kvUp cfg i then
        match fate with
        | .ok => c.setJson cfg json k value eff
        | .failed applied =>
          ((if applied then c.setJson cfg json k value eff else c).trip cfg i).memSet cfg i k value
            eff
      else c.memSet cfg i k value eff

def CacheState.delete (c : CacheState V) (key : String) (fate : KvFate) : CacheState V :=
  let k := cfg.k key
  let c := c.memPop i k
  if c.kvUp cfg i then
    match fate with
    | .ok => c.kvDelete cfg k
    | .failed applied => (if applied then c.kvDelete cfg k else c).trip cfg i
  else c

end Cache

/-- What `view_url` uses of `MediaConfig`; `view_cache_ttl` is derived unless it is set. -/
structure ViewConfig where
  viewExpiry : Int := 3600
  viewCacheTtl : Int := 3600 * 9 / 10

def ViewConfig.fromEnv (viewExpiry : Int) (viewCacheTtl : Option Int) : ViewConfig where
  viewExpiry := viewExpiry
  viewCacheTtl := viewCacheTtl.getD (viewExpiry * 9 / 10)

/-- A call of `Cache.set` that went through; `outside` if it is not one of `view_url`. -/
structure Stored where
  time : Nat
  key : String
  value : String
  ttl : Nat
  outside : Bool

structure Returned where
  time : Nat
  key : String
  value : String

/-- `missed` are the calls of `view_url` that have found nothing in the cache of their process. The
rest is what the calls have stored and returned. -/
structure ViewState where
  cache : CacheState String := {}
  missed : List (Nat × String) := []
  sets : List Stored := []
  hits : List Returned := []
  urls : List Returned := []

inductive ViewEvent where
  | tick (duration : Nat)
  | evict (i : Nat) (victims : String → Bool)
  | get (i : Nat) (key : String) (fate : KvFate)
  | set (i : Nat) (key : String) (value : Option String) (ttl : Option Int) (fate : KvFate)
  | delete (i : Nat) (key : String) (fate : KvFate)
  | viewUrl (i : Nat) (key : String) (fate : KvFate)
  | presign (i : Nat) (key : String) (fate : KvFate)

section Views

variable (cfg : CacheConfig) (json : Codec String String) (media : ViewConfig)
  (presignGet : String → Int → Nat → String)

def ViewState.hit (s : ViewState) (i : Nat) (key : String) (fate : KvFate) :
    Option String × ViewState :=
  let (hit, cache) := s.cache.get cfg json i key fate
  (hit, { s with
    cache
    hits := (hit.map fun value => ⟨s.cache.now, key, value⟩).toList ++ s.hits })

/-- A call that raises leaves everything as it is. -/
def ViewState.store (s : ViewState) (i : Nat) (key : String) (value : Option String)
    (ttl : Option Int) (fate : KvFate) (outside : Bool) : Option ViewState :=
  (s.cache.set cfg json i key value ttl fate).map fun cache => { s with
    cache
    sets := (match value, cfg.effectiveTtl ttl with
      | some value, some eff => [⟨s.cache.now, key, value, eff, outside⟩]
      | _, _ => []) ++ s.sets }

/-- `viewUrl` is the first half of `view_url` and `presign` the second one. -/
def ViewState.step (s : ViewState) : ViewEvent → ViewState
  | .tick duration => { s with cache := { s.cache with now := s.cache.now + duration } }
  | .evict i victims => { s with
      cache := s.cache.update i { s.cache.instances i with
        mem := (s.cache.instances i).mem.delete victims } }
  | .get i key fate => (s.hit cfg json i key fate).2
  | .set i key value ttl fate => (s.store cfg json i key value ttl fate true).getD s
  | .delete i key fate => { s with cache := s.cache.delete cfg i key fate }
  | .viewUrl i key fate =>
    match s.hit cfg json i key fate with
    | (some url, s) => { s with urls := ⟨s.cache.now, key, url⟩ :: s.urls }
    | (none, s) => { s with missed := (i, key) :: s.missed }
  | .presign i key fate =>
    if (i, key) ∈ s.missed then
      let s := { s with missed := s.missed.erase (i, key) }
      let url := presignGet key media.viewExpiry s.cache.now
      match s.store cfg json i key (some url) (some media.viewCacheTtl) fate false with
      | some s => { s with urls := ⟨s.cache.now, key, url⟩ :: s.urls }
      | none => s
    else s

def ViewState.run (events : List ViewEvent) : ViewState :=
  events.foldl (ViewState.step cfg json media presignGet) {}

end Views

/-- A call that stored this, and the entry it made expires at `deadline`. -/
def Stored.Made (cfg : CacheConfig) (e : Stored) (key value : String) (deadline : Nat) : Prop :=
  e.key = key ∧ e.value = value ∧ deadline = e.time + e.ttl * cfg.ticks

/-- Every entry of either store, expired or not, was made by a call. -/
structure Backed (cfg : CacheConfig) (json : Codec String String) (sets : List Stored)
    (c : CacheState String) : Prop where
  kv : c.kv.Within fun k text deadline =>
    ∃ e ∈ sets, ∃ key, k = cfg.kvKey (cfg.k key) ∧ e.Made cfg key (json.decode text) deadline
  mem : ∀ i, (c.instances i).mem.Within fun k value deadline =>
    ∃ e ∈ sets, ∃ key, k = cfg.k key ∧ e.Made cfg key value deadline

section Keys

variable {cfg : CacheConfig} {key key' : String}

theorem CacheConfig.k_injective (h : cfg.k key = cfg.k key') : key = key' := by
  unfold k at h
  by_cases hns : cfg.namespace_ = ""
  · simpa [hns] using h
  · rw [if_neg hns, if_neg hns] at h
    exact String.append_right_inj _ |>.mp h

theorem CacheConfig.kvKey_injective (h : cfg.kvKey key = cfg.kvKey key') : key = key' :=
  String.append_right_inj _ |>.mp h

end Keys

section Backed

variable {cfg : CacheConfig} {json : Codec String String} {sets sets' : List Stored}
  {c c' : CacheState String} {i ttl : Nat} {key value : String} {fate : KvFate} {e : Stored}

theorem Backed.imp (h : Backed cfg json sets c) (hsub : sets ⊆ sets') : Backed cfg json sets' c :=
  ⟨h.kv.imp fun _ _ _ ⟨e, he, hmade⟩ => ⟨e, hsub he, hmade⟩,
    fun i => (h.mem i).imp fun _ _ _ ⟨e, he, hmade⟩ => ⟨e, hsub he, hmade⟩⟩

theorem Backed.update {instance_ : CacheInstance String} (h : Backed cfg json sets c)
    (hmem : instance_.mem.Within fun k value deadline =>
      ∃ e ∈ sets, ∃ key, k = cfg.k key ∧ e.Made cfg key value deadline) :
    Backed cfg json sets (c.update i instance_) := by
  refine ⟨h.kv, fun j => ?_⟩
  by_cases hj : j = i
  · subst hj
    simpa [CacheState.update] using hmem
  · simpa [CacheState.update, Function.update_of_ne hj] using h.mem j

theorem Backed.trip (h : Backed cfg json sets c) : Backed cfg json sets (c.trip cfg i) :=
  h.update (h.mem i)

theorem Backed.memSet (h : Backed cfg json sets c) (he : e ∈ sets)
    (hmade : e.Made cfg key value (c.now + ttl * cfg.ticks)) :
    Backed cfg json sets (c.memSet cfg i (cfg.k key) value ttl) :=
  h.update ((h.mem i).set ⟨e, he, key, rfl, hmade⟩)

theorem Backed.setJson (h : Backed cfg json sets c) (he : e ∈ sets)
    (hmade : e.Made cfg key value (c.now + ttl * cfg.ticks)) :
    Backed cfg json sets (c.setJson cfg json (cfg.k key) value ttl) := by
  refine ⟨h.kv.set ⟨e, he, key, rfl, ?_⟩, h.mem⟩
  rw [json.decode_encode]
  exact hmade

theorem Backed.kvDelete (h : Backed cfg json sets c) :
    Backed cfg json sets (c.kvDelete cfg key) :=
  ⟨h.kv.delete, h.mem⟩

theorem Backed.memPop (h : Backed cfg json sets c) :
    Backed cfg json sets (c.memPop i key) :=
  h.update (h.mem i).delete

theorem Backed.delete (h : Backed cfg json sets c) :
    Backed cfg json sets (c.delete cfg i key fate) := by
  have hpop : Backed cfg json sets (c.memPop i (cfg.k key)) := h.memPop
  unfold CacheState.delete
  by_cases hup : (c.memPop i (cfg.k key)).kvUp cfg i = true
  · simp only [hup, if_true]
    cases fate with
    | ok => exact hpop.kvDelete
    | failed applied =>
      cases applied with
      | false => exact hpop.trip
      | true => exact hpop.kvDelete.trip
  · simp only [hup]
    exact hpop

theorem Backed.set {ttl : Option Int} {eff : Nat} (h : Backed cfg json sets c) (he : e ∈ sets)
    (hmade : e.Made cfg key value (c.now + eff * cfg.ticks)) (httl : cfg.effectiveTtl ttl = some eff)
    (hset : c.set cfg json i key (some value) ttl fate = some c') : Backed cfg json sets c' := by
  simp only [CacheState.set, httl, Option.map_some, Option.some.injEq] at hset
  subst hset
  by_cases hup : c.kvUp cfg i = true
  · simp only [hup, if_true]
    cases fate with
    | ok => exact h.setJson he hmade
    | failed applied =>
      cases applied with
      | false => exact h.trip.memSet he hmade
      | true => exact (h.setJson he hmade).trip.memSet he hmade
  · simp only [hup]
    exact h.memSet he hmade

theorem Backed.get (h : Backed cfg json sets c) :
    Backed cfg json sets (c.get cfg json i key fate).2 := by
  unfold CacheState.get
  by_cases hup : c.kvUp cfg i = true
  · simp only [hup, if_true]
    cases fate with
    | ok => exact h
    | failed applied => exact h.trip
  · simp only [hup]
    exact h

theorem Backed.memGet (h : Backed cfg json sets c) (hget : c.memGet i (cfg.k key) = some value) :
    ∃ e ∈ sets, ∃ deadline, e.Made cfg key value deadline ∧ c.now < deadline := by
  obtain ⟨deadline, ⟨e, he, key', hk, hmade⟩, hlt⟩ := (h.mem i).read hget
  obtain rfl := CacheConfig.k_injective hk
  exact ⟨e, he, deadline, hmade, hlt⟩

/-- Whichever store answers, a call has stored the value and it has not expired. -/
theorem Backed.hit (h : Backed cfg json sets c)
    (hget : (c.get cfg json i key fate).1 = some value) :
    ∃ e ∈ sets, ∃ deadline, e.Made cfg key value deadline ∧ c.now < deadline := by
  unfold CacheState.get at hget
  by_cases hup : c.kvUp cfg i = true
  · simp only [hup, if_true] at hget
    cases fate with
    | ok =>
      obtain ⟨text, htext, rfl⟩ := Option.map_eq_some_iff.mp hget
      obtain ⟨deadline, ⟨e, he, key', hk, hmade⟩, hlt⟩ := h.kv.read htext
      obtain rfl := CacheConfig.k_injective (CacheConfig.kvKey_injective hk)
      exact ⟨e, he, deadline, hmade, hlt⟩
    | failed applied => exact h.memGet hget
  · simp only [hup] at hget
    exact h.memGet hget

theorem CacheState.get_now : (c.get cfg json i key fate).2.now = c.now := by
  unfold get
  by_cases hup : c.kvUp cfg i = true
  · simp only [hup, if_true]
    cases fate <;> rfl
  · simp [hup]

theorem CacheState.delete_now : (c.delete cfg i key fate).now = c.now := by
  unfold delete
  by_cases hup : (c.memPop i (cfg.k key)).kvUp cfg i = true
  · simp only [hup, if_true]
    cases fate with
    | ok => rfl
    | failed applied => cases applied <;> rfl
  · simp only [hup]
    rfl

theorem CacheState.set_now {value : Option String} {ttl : Option Int}
    (hset : c.set cfg json i key value ttl fate = some c') : c'.now = c.now := by
  cases value with
  | none => exact Option.some.inj hset ▸ rfl
  | some value =>
    obtain ⟨eff, _, rfl⟩ := Option.map_eq_some_iff.mp hset
    by_cases hup : c.kvUp cfg i = true
    · simp only [hup, if_true]
      cases fate with
      | ok => rfl
      | failed applied => cases applied <;> rfl
    · simp only [hup]
      rfl

theorem CacheConfig.effectiveTtl_some {ttl : Int} {eff : Nat}
    (h : cfg.effectiveTtl (some ttl) = some eff) : (eff : Int) = ttl ∧ 0 < eff := by
  have hif : (if ttl ≤ 0 then none else some ttl.toNat) = some eff := h
  obtain ⟨hpos, heq⟩ := Option.ite_none_left_eq_some.mp hif
  have heff := Option.some.inj heq
  omega

end Backed

/-- What a call returned was stored under the key and had not expired. -/
def Returned.Live (cfg : CacheConfig) (sets : List Stored) (r : Returned) : Prop :=
  ∃ e ∈ sets, e.key = r.key ∧ e.value = r.value ∧ e.time ≤ r.time ∧
    r.time < e.time + e.ttl * cfg.ticks

structure ViewState.Sound (cfg : CacheConfig) (json : Codec String String) (media : ViewConfig)
    (presignGet : String → Int → Nat → String) (s : ViewState) : Prop where
  backed : Backed cfg json s.sets s.cache
  past : ∀ e ∈ s.sets, e.time ≤ s.cache.now
  presigned : ∀ e ∈ s.sets, e.outside = false →
    e.value = presignGet e.key media.viewExpiry e.time ∧ (e.ttl : Int) = media.viewCacheTtl
  hits : ∀ r ∈ s.hits, r.Live cfg s.sets
  urls : ∀ r ∈ s.urls, r.Live cfg s.sets

section Views

variable {cfg : CacheConfig} {json : Codec String String} {media : ViewConfig}
  {presignGet : String → Int → Nat → String} {s s' : ViewState} {i : Nat} {key : String}
  {fate : KvFate} {sets sets' : List Stored} {r : Returned}

theorem Returned.Live.imp (h : r.Live cfg sets) (hsub : sets ⊆ sets') : r.Live cfg sets' := by
  obtain ⟨e, he, hlive⟩ := h
  exact ⟨e, hsub he, hlive⟩

/-- Only the cache changes, no later than now. -/
theorem ViewState.Sound.cache {c : CacheState String} (h : s.Sound cfg json media presignGet)
    (hbacked : Backed cfg json s.sets c) (hnow : s.cache.now ≤ c.now) :
    ({ s with cache := c } : ViewState).Sound cfg json media presignGet :=
  ⟨hbacked, fun e he => (h.past e he).trans hnow, h.presigned, h.hits, h.urls⟩

theorem ViewState.Sound.hit_live {url : String} (h : s.Sound cfg json media presignGet)
    (hget : (s.cache.get cfg json i key fate).1 = some url) :
    Returned.Live cfg s.sets ⟨s.cache.now, key, url⟩ := by
  obtain ⟨e, he, deadline, ⟨hkey, hvalue, rfl⟩, hlt⟩ := h.backed.hit hget
  exact ⟨e, he, hkey, hvalue, h.past e he, hlt⟩

theorem ViewState.Sound.hit (h : s.Sound cfg json media presignGet) :
    (s.hit cfg json i key fate).2.Sound cfg json media presignGet := by
  have hbacked : Backed cfg json s.sets (s.cache.get cfg json i key fate).2 := h.backed.get
  have hcache := h.cache hbacked CacheState.get_now.ge
  refine ⟨hcache.backed, hcache.past, hcache.presigned, fun r hr => ?_, hcache.urls⟩
  rcases List.mem_append.mp hr with hr | hr
  · obtain ⟨url, hurl, rfl⟩ := Option.map_eq_some_iff.mp (Option.mem_toList.mp hr)
    exact h.hit_live hurl
  · exact h.hits r hr

/-- What was stored, if anything, was stored now. -/
theorem ViewState.Sound.store {value : Option String} {ttl : Option Int} {outside : Bool}
    (h : s.Sound cfg json media presignGet)
    (hpresigned : outside = false →
      value = some (presignGet key media.viewExpiry s.cache.now) ∧ ttl = some media.viewCacheTtl)
    (hstore : s.store cfg json i key value ttl fate outside = some s') :
    s'.Sound cfg json media presignGet := by
  obtain ⟨c, hset, rfl⟩ := Option.map_eq_some_iff.mp hstore
  have hnow : c.now = s.cache.now := CacheState.set_now hset
  cases value with
  | none =>
    obtain rfl : s.cache = c := Option.some.inj hset
    exact h.cache h.backed le_rfl
  | some value =>
    obtain ⟨eff, httl, _⟩ := Option.map_eq_some_iff.mp hset
    have hsub : s.sets ⊆ ⟨s.cache.now, key, value, eff, outside⟩ :: s.sets :=
      List.subset_cons_self _ _
    simp only [httl, List.singleton_append]
    refine ⟨?_, ?_, ?_, fun r hr => (h.hits r hr).imp hsub, fun r hr => (h.urls r hr).imp hsub⟩
    · exact (h.backed.imp hsub).set (List.mem_cons_self ..) ⟨rfl, rfl, rfl⟩ httl hset
    · intro e he
      rcases List.mem_cons.mp he with rfl | he
      · exact hnow.ge
      · exact hnow ▸ h.past e he
    · intro e he hinside
      rcases List.mem_cons.mp he with rfl | he
      · obtain ⟨hvalue, rfl⟩ := hpresigned hinside
        exact ⟨Option.some.inj hvalue, (CacheConfig.effectiveTtl_some httl).1⟩
      · exact h.presigned e he hinside

theorem ViewState.Sound.url {url : String} (h : s.Sound cfg json media presignGet)
    (hlive : Returned.Live cfg s.sets ⟨s.cache.now, key, url⟩) :
    ({ s with urls := ⟨s.cache.now, key, url⟩ :: s.urls } : ViewState).Sound cfg json media
      presignGet := by
  refine ⟨h.backed, h.past, h.presigned, h.hits, fun r hr => ?_⟩
  rcases List.mem_cons.mp hr with rfl | hr
  · exact hlive
  · exact h.urls r hr

theorem ViewState.Sound.missed (h : s.Sound cfg json media presignGet)
    (missed : List (Nat × String)) :
    ({ s with missed := missed } : ViewState).Sound cfg json media presignGet :=
  ⟨h.backed, h.past, h.presigned, h.hits, h.urls⟩

/-- A URL that has just been stored has all its time to live before it. -/
theorem store_live {url : String} {ttl : Int} (hticks : 0 < cfg.ticks)
    (hstore : s.store cfg json i key (some url) (some ttl) fate false = some s') :
    Returned.Live cfg s'.sets ⟨s'.cache.now, key, url⟩ := by
  obtain ⟨c, hset, rfl⟩ := Option.map_eq_some_iff.mp hstore
  have hnow : c.now = s.cache.now := CacheState.set_now hset
  obtain ⟨eff, httl, _⟩ := Option.map_eq_some_iff.mp hset
  have hpos : 0 < eff * cfg.ticks := Nat.mul_pos (CacheConfig.effectiveTtl_some httl).2 hticks
  simp only [httl]
  refine ⟨_, List.mem_cons_self .., rfl, rfl, hnow.ge, ?_⟩
  show c.now < s.cache.now + eff * cfg.ticks
  omega

theorem ViewState.Sound.step (h : s.Sound cfg json media presignGet) (hticks : 0 < cfg.ticks)
    (event : ViewEvent) :
    (s.step cfg json media presignGet event).Sound cfg json media presignGet := by
  cases event with
  | tick duration => exact h.cache ⟨h.backed.kv, h.backed.mem⟩ (Nat.le_add_right _ _)
  | evict i victims => exact h.cache (h.backed.update (h.backed.mem i).delete) le_rfl
  | get i key fate => exact h.hit
  | set i key value ttl fate =>
    simp only [ViewState.step]
    cases hstore : s.store cfg json i key value ttl fate true with
    | none => exact h
    | some s' =>
      rw [Option.getD_some]
      refine h.store ?_ hstore
      exact nofun
  | delete i key fate => exact h.cache h.backed.delete (CacheState.delete_now.ge)
  | viewUrl i key fate =>
    have hhit : (s.hit cfg json i key fate).2.Sound cfg json media presignGet := h.hit
    have hnow : (s.hit cfg json i key fate).2.cache.now = s.cache.now := CacheState.get_now
    simp only [ViewState.step]
    cases hurl : s.hit cfg json i key fate with
    | mk url s' =>
      rw [hurl] at hhit hnow
      cases url with
      | none => exact hhit.missed _
      | some url =>
        refine hhit.url ?_
        have hget : (s.cache.get cfg json i key fate).1 = some url := congrArg Prod.fst hurl
        have hsets : s'.sets = s.sets := (congrArg (fun p => p.2.sets) hurl).symm
        rw [hnow, hsets]
        exact h.hit_live hget
  | presign i key fate =>
    simp only [ViewState.step]
    by_cases hmem : (i, key) ∈ s.missed
    · rw [if_pos hmem]
      have hmissed := h.missed (s.missed.erase (i, key))
      split
      · rename_i s' hstore
        exact (hmissed.store (fun _ => ⟨rfl, rfl⟩) hstore).url (store_live hticks hstore)
      · exact hmissed
    · rw [if_neg hmem]
      exact h

theorem ViewState.sound_run (hticks : 0 < cfg.ticks) (events : List ViewEvent) :
    (ViewState.run cfg json media presignGet events).Sound cfg json media presignGet := by
  have hrun : ∀ s : ViewState, s.Sound cfg json media presignGet →
      (events.foldl (ViewState.step cfg json media presignGet) s).Sound cfg json media presignGet := by
    induction events with
    | nil => exact fun s h => h
    | cons event events ih => exact fun s h => ih _ (h.step hticks event)
  exact hrun {} ⟨⟨Keyspace.within_empty, fun _ => Keyspace.within_empty⟩, nofun, nofun, nofun, nofun⟩

/-- Nothing is served past its life: neither what `get` returns nor the URLs of `view_url`, which are
valid unless something else than `view_url` has stored them. -/
theorem views_live {viewExpiry : Int} (hticks : 0 < cfg.ticks) (hexpiry : 2 ≤ viewExpiry)
    (events : List ViewEvent) :
    let s := ViewState.run cfg json (ViewConfig.fromEnv viewExpiry none) presignGet events
    (∀ r ∈ s.hits, r.Live cfg s.sets) ∧
    ∀ r ∈ s.urls,
      (∃ start, r.value = presignGet r.key viewExpiry start ∧ start ≤ r.time ∧
        (r.time : Int) < start + viewExpiry * cfg.ticks) ∨
      ∃ e ∈ s.sets, e.outside = true ∧ e.key = r.key ∧ e.value = r.value ∧ e.time ≤ r.time ∧
        r.time < e.time + e.ttl * cfg.ticks := by
  intro s
  have h : s.Sound cfg json (ViewConfig.fromEnv viewExpiry none) presignGet :=
    ViewState.sound_run hticks events
  refine ⟨h.hits, fun r hr => ?_⟩
  obtain ⟨e, he, hkey, hvalue, hle, hlt⟩ := h.urls r hr
  cases hout : e.outside with
  | true => exact .inr ⟨e, he, hout, hkey, hvalue, hle, hlt⟩
  | false =>
    obtain ⟨hpresigned, httl⟩ := h.presigned e he hout
    have hderived : (e.ttl : Int) = viewExpiry * 9 / 10 := httl
    have hpos : 0 ≤ viewExpiry := Int.le_trans (by decide) hexpiry
    have hshorter : (e.ttl : Int) ≤ viewExpiry := by omega
    have hscaled : (e.ttl : Int) * cfg.ticks ≤ viewExpiry * cfg.ticks :=
      Int.mul_le_mul_of_nonneg_right hshorter (by omega)
    have hlt' : (r.time : Int) < e.time + (e.ttl : Int) * cfg.ticks := by exact_mod_cast hlt
    refine .inl ⟨e.time, ?_, hle, by omega⟩
    rw [← hvalue, hpresigned, hkey]
    rfl

end Views

section Example

def plainJson : Codec String String := ⟨id, id, fun _ => rfl⟩

def signedAt (key : String) (_ : Int) (start : Nat) : String := key ++ "?" ++ toString start

/-- The store fails while the URL is stored; the next call finds it in memory. -/
def failedStore : List ViewEvent :=
  [.viewUrl 0 "scan" .ok, .presign 0 "scan" (.failed true), .tick 8, .viewUrl 0 "scan" .ok]

theorem views_live_after_failure :
    ∃ start, signedAt "scan" 10 0 = signedAt "scan" 10 start ∧ start ≤ 8 ∧
      (8 : Int) < start + 10 * 1 := by
  let s := ViewState.run { cooldown := 20, ticks := 1 } plainJson (ViewConfig.fromEnv 10 none)
    signedAt failedStore
  have hreturned : (⟨8, "scan", signedAt "scan" 10 0⟩ : Returned) ∈ s.urls := List.mem_cons_self ..
  have hsets : s.sets = [⟨0, "scan", signedAt "scan" 10 0, 9, false⟩] := rfl
  rcases (views_live Nat.one_pos (by decide) failedStore).2 _ hreturned with h | ⟨e, he, hout, _⟩
  · exact h
  · rw [show (ViewState.run _ plainJson _ signedAt failedStore).sets = _ from hsets,
      List.mem_singleton] at he
    rw [he] at hout
    exact nomatch hout

end Example

end Doci
