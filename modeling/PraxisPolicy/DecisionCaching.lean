import PraxisPolicy.DecisionKeys
import PraxisPolicy.DecisionStore
import PraxisPolicy.StepRuns

/-!
# Cached decisions and policy generations

Under the lock the store is cleared when the engine's generation has moved on.  Generations are
counted without end here, and the code sees the 64 bits an `AtomicU64` keeps of the count.  Each
decision carries, for the record only, the generations in force when it was asked for and answered.
-/

namespace PraxisPolicy

open EncodedText HashMaps StepRuns TextScanning

/-- What an `AtomicU64` holds of a count. -/
def word (count : ℕ) : ℕ := count % 2 ^ 64

theorem eq_of_word_eq {a b : ℕ} (hle : a ≤ b) (hlt : b < a + 2 ^ 64) (h : word b = word a) :
    b = a := by
  unfold word at h
  omega

structure Computed where
  decision : PdpDecision
  askedUnder : ℕ
  answeredUnder : ℕ

structure DecisionCacheConfig where
  ttl : ℕ
  maxEntries : ℕ+
  ttl_pos : 0 < ttl

/-- `generation` is the one the store was last cleared for. -/
structure DecisionCache where
  store : DecisionStore (List UInt8) Computed
  generation : ℕ

namespace DecisionCache

/-- `current` is what the engine answered, if there still is one. -/
def maybeClearForGeneration (c : DecisionCache) : Option ℕ → DecisionCache
  | none => c
  | some current =>
    if word current = word c.generation then c
    else { store := c.store.clear, generation := current }

def lookup (c : DecisionCache) (current : Option ℕ) (key : List UInt8) (now : ℕ) :
    StoreLookup Computed × ℕ × DecisionCache :=
  let c := c.maybeClearForGeneration current
  let found := c.store.lookup key now
  (found.1, c.generation, { c with store := found.2 })

def insertIfGeneration (c : DecisionCache) (current : Option ℕ) (key : List UInt8)
    (decision : Computed) (expectedGen expiresAt now : ℕ) : Option StoreInsert × DecisionCache :=
  let c := c.maybeClearForGeneration current
  if word c.generation = word expectedGen then
    let outcome := c.store.insert key decision expiresAt now
    (some outcome.1, { c with store := outcome.2 })
  else (none, c)

/-- Nothing in the store is older than the last clear and, while there is an engine, nothing is
newer. -/
def UpToDate (c : DecisionCache) (engine : Bool) : Prop :=
  ∀ key slot, c.store.entries.lookup key = some slot →
    c.generation ≤ slot.decision.askedUnder ∧
      slot.decision.askedUnder ≤ slot.decision.answeredUnder ∧
      (engine = true → slot.decision.answeredUnder = c.generation)

def Near (c : DecisionCache) (current : Option ℕ) : Prop :=
  ∀ g ∈ current, c.generation ≤ g ∧ g < c.generation + 2 ^ 64

variable {c : DecisionCache} {engine : Bool} {current : Option ℕ} {key : List UInt8} {now : ℕ}
  {computed : Computed} {expectedGen expiresAt g : ℕ}

theorem generation_maybeClearForGeneration (h : c.Near current) :
    (c.maybeClearForGeneration current).generation = current.getD c.generation := by
  cases current with
  | none => rfl
  | some current =>
    obtain ⟨hle, hlt⟩ := h current rfl
    rw [maybeClearForGeneration]
    split_ifs with hword
    · exact (eq_of_word_eq hle hlt hword).symm
    · rfl

theorem UpToDate.maybeClearForGeneration (h : c.UpToDate engine) (current : Option ℕ) :
    (c.maybeClearForGeneration current).UpToDate engine := by
  cases current with
  | none => exact h
  | some current =>
    rw [DecisionCache.maybeClearForGeneration]
    split_ifs
    · exact h
    · intro key slot hslot
      cases hslot

theorem UpToDate.lookup (h : c.UpToDate engine) (current : Option ℕ) (key : List UInt8) (now : ℕ) :
    (c.lookup current key now).2.2.UpToDate engine :=
  fun k slot hslot =>
    h.maybeClearForGeneration current k slot (DecisionStore.submap_lookup _ key now k slot hslot)

theorem UpToDate.hit (h : c.UpToDate true) (hnear : c.Near (some g))
    (hfound : (c.lookup (some g) key now).1 = .hit computed) :
    computed.askedUnder = g ∧ computed.answeredUnder = g := by
  obtain ⟨slot, hslot, -, rfl⟩ := (DecisionStore.lookup_eq_hit_iff _).1 hfound
  obtain ⟨hasked, hanswered, hnow⟩ := h.maybeClearForGeneration (some g) key slot hslot
  rw [generation_maybeClearForGeneration hnear, Option.getD_some] at hasked hnow
  have heq := hnow rfl
  omega

theorem generation_insertIfGeneration :
    (c.insertIfGeneration current key computed expectedGen expiresAt now).2.generation =
      (c.maybeClearForGeneration current).generation := by
  dsimp only [insertIfGeneration]
  split_ifs <;> rfl

/-- A stored answer was computed under the generation its lookup saw, or a later one. -/
theorem UpToDate.insertIfGeneration (h : c.UpToDate engine) (hnear : c.Near current)
    (hengine : current.isSome = engine) (hexpected : expectedGen ≤ c.generation)
    (hasked : expectedGen ≤ computed.askedUnder)
    (hanswered : computed.askedUnder ≤ computed.answeredUnder)
    (hcurrent : ∀ g ∈ current, computed.answeredUnder ≤ g)
    (hword : current.getD c.generation < expectedGen + 2 ^ 64) :
    (c.insertIfGeneration current key computed expectedGen expiresAt now).2.UpToDate engine := by
  have hclear := h.maybeClearForGeneration current
  have hgeneration := generation_maybeClearForGeneration hnear
  dsimp only [DecisionCache.insertIfGeneration]
  split_ifs with hsame
  · intro k slot hslot
    rcases DecisionStore.lookup_insert hslot with rfl | hold
    · dsimp only
      rw [hgeneration] at hsame ⊢
      cases current with
      | none =>
        obtain heq : c.generation = expectedGen := eq_of_word_eq hexpected hword hsame
        exact ⟨heq.trans_le hasked, hanswered, fun hup => by simp [← hengine] at hup⟩
      | some g =>
        have hle := (hnear g rfl).1
        have hlast := hcurrent g rfl
        obtain heq : g = expectedGen := eq_of_word_eq (hexpected.trans hle) hword hsame
        exact ⟨heq.trans_le hasked, hanswered, fun _ => le_antisymm hlast
          (heq.trans_le (hasked.trans hanswered))⟩
    · exact hclear k slot hold
  · exact hclear

end DecisionCache

/-- How far an evaluation has come. -/
inductive EvaluationPhase where
  | begun (key : List UInt8)
  /-- Holds the lock and has read the engine's generation. -/
  | looking (key : List UInt8) (current : Option ℕ)
  /-- Missed, and waits for the wrapped resolver. -/
  | asking (key : List UInt8) (generation askedUnder : ℕ)
  /-- Has an answer to store and waits for the lock. -/
  | answered (key : List UInt8) (computed : Computed) (generation expiresAt now : ℕ)
  /-- Holds the lock again and has read the engine's generation again. -/
  | inserting (key : List UInt8) (computed : Computed) (generation expiresAt now : ℕ)
      (current : Option ℕ)

/-- With the generation the evaluation read, if there was an engine. -/
inductive DecisionSource where
  | cache (readUnder : Option ℕ)
  | inner

structure DecisionCacheStats where
  hits : ℕ
  misses : ℕ
  expiries : ℕ
  evictions : ℕ

structure CachedPdpResolver where
  config : DecisionCacheConfig
  /-- Is there still an engine? -/
  engine : Bool
  /-- How often the engine has changed its configuration. -/
  generation : ℕ
  cache : DecisionCache
  /-- The evaluation that holds the lock of the store. -/
  holder : Option ℕ
  evaluations : ℕ → Option EvaluationPhase
  stats : DecisionCacheStats
  returned : List (ℕ × Except PdpError (Computed × DecisionSource))

/-- A lookup or an insertion is two steps: take the lock and read the generation, then finish. -/
inductive CacheEvent where
  | bump
  | drop
  | evaluateStructured (id : ℕ) (e : PdpEvaluation) (order : IterationOrder e.bag)
  | lock (id : ℕ)
  | finish (id now : ℕ)
  | answer (id now : ℕ) (result : Except PdpError PdpDecision)
  | cancel (id : ℕ)

namespace CachedPdpResolver

def wrap (config : DecisionCacheConfig) (engine : Option ℕ) : CachedPdpResolver where
  config := config
  engine := engine.isSome
  generation := engine.getD 0
  cache := ⟨.new config.maxEntries, engine.getD 0⟩
  holder := none
  evaluations _ := none
  stats := ⟨0, 0, 0, 0⟩
  returned := []

def configGeneration (s : CachedPdpResolver) : Option ℕ :=
  if s.engine then some s.generation else none

def setPhase (s : CachedPdpResolver) (id : ℕ) (phase : EvaluationPhase) : CachedPdpResolver :=
  { s with evaluations := Function.update s.evaluations id (some phase) }

def finishWith (s : CachedPdpResolver) (id : ℕ)
    (result : Except PdpError (Computed × DecisionSource)) : CachedPdpResolver :=
  { s with
    evaluations := Function.update s.evaluations id none
    returned := s.returned ++ [(id, result)] }

def release (s : CachedPdpResolver) (id : ℕ) (cache : DecisionCache) (stats : DecisionCacheStats) :
    CachedPdpResolver :=
  { s with
    cache := cache
    holder := none
    evaluations := Function.update s.evaluations id none
    stats := stats }

def afterLookup (s : CachedPdpResolver) (id : ℕ) (key : List UInt8) (current : Option ℕ) :
    StoreLookup Computed × ℕ × DecisionCache → CachedPdpResolver
  | (.hit computed, _, cache) =>
    (s.release id cache { s.stats with hits := word (s.stats.hits + 1) }).finishWith id
      (.ok (computed, .cache current))
  | (.expired, generation, cache) =>
    (s.release id cache { s.stats with
      expiries := word (s.stats.expiries + 1)
      misses := word (s.stats.misses + 1) }).setPhase id (.asking key generation s.generation)
  | (.miss, generation, cache) =>
    (s.release id cache { s.stats with misses := word (s.stats.misses + 1) }).setPhase id
      (.asking key generation s.generation)

def step [DigestBackend] (lastInstant : ℕ) (s : CachedPdpResolver) :
    CacheEvent → CachedPdpResolver
  | .bump => if s.engine then { s with generation := s.generation + 1 } else s
  -- who holds the lock holds the engine too
  | .drop => if s.holder = none then { s with engine := false } else s
  | .evaluateStructured id e order =>
    match s.evaluations id with
    | some _ => s
    | none => match e.cacheKey order with
      | .ok key => s.setPhase id (.begun key)
      | .error _ => s.finishWith id (.error (.dispatch "PDP cache key hashing failed"))
  | .lock id =>
    match s.holder, s.evaluations id with
    | none, some (.begun key) =>
      { s with holder := some id }.setPhase id (.looking key s.configGeneration)
    | none, some (.answered key computed generation expiresAt now) =>
      { s with holder := some id }.setPhase id
        (.inserting key computed generation expiresAt now s.configGeneration)
    | _, _ => s
  | .finish id now =>
    match s.evaluations id with
    | some (.looking key current) => s.afterLookup id key current (s.cache.lookup current key now)
    | some (.inserting key computed generation expiresAt now current) =>
      let outcome := s.cache.insertIfGeneration current key computed generation expiresAt now
      (s.release id outcome.2
        (if outcome.1 = some StoreInsert.evicted then
          { s.stats with evictions := word (s.stats.evictions + 1) }
        else s.stats)).finishWith id (.ok (computed, .inner))
    | _ => s
  | .answer id now result =>
    match s.evaluations id, result with
    | some (.asking _ _ _), .error e => s.finishWith id (.error e)
    | some (.asking key generation askedUnder), .ok decision =>
      let computed : Computed := ⟨decision, askedUnder, s.generation⟩
      -- an expiry the clock cannot represent: the decision is returned and not stored
      if now + s.config.ttl ≤ lastInstant then
        s.setPhase id (.answered key computed generation (now + s.config.ttl) now)
      else s.finishWith id (.ok (computed, .inner))
    | _, _ => s
  -- dropped while it waits for the wrapped resolver
  | .cancel id => match s.evaluations id with
    | some (.asking _ _ _) => { s with evaluations := Function.update s.evaluations id none }
    | _ => s

/-- Generations that are compared are less than a word apart. -/
def WithinWord (s : CachedPdpResolver) : CacheEvent → Prop
  | .lock id => match s.evaluations id with
    | some (.begun _) => s.generation < s.cache.generation + 2 ^ 64
    | some (.answered _ _ expected _ _) => s.generation < expected + 2 ^ 64
    | _ => True
  | _ => True

/-- An evaluation that holds the lock has read what the engine says. -/
structure LockHeld (engine : Bool) (generation : ℕ) (cache : DecisionCache) (current : Option ℕ) :
    Prop where
  engine : current.isSome = engine
  near : cache.Near current
  read : ∀ g ∈ current, g ≤ generation

def Holds (s : CachedPdpResolver) (id : ℕ) (current : Option ℕ) : Prop :=
  s.holder = some id ∧ LockHeld s.engine s.generation s.cache current

/-- The generations it has seen, in the order it saw them. -/
def Fits (s : CachedPdpResolver) (id : ℕ) : EvaluationPhase → Prop
  | .begun _ => True
  | .looking _ current => s.Holds id current
  | .asking _ expected askedUnder => expected ≤ s.cache.generation ∧ expected ≤ askedUnder ∧
      askedUnder ≤ s.generation
  | .answered _ computed expected _ _ => expected ≤ s.cache.generation ∧
      expected ≤ computed.askedUnder ∧ computed.askedUnder ≤ computed.answeredUnder ∧
      computed.answeredUnder ≤ s.generation
  | .inserting _ computed expected _ _ current => s.Holds id current ∧
      expected ≤ s.cache.generation ∧ expected ≤ computed.askedUnder ∧
      computed.askedUnder ≤ computed.answeredUnder ∧
      (∀ g ∈ current, computed.answeredUnder ≤ g) ∧
      current.getD s.cache.generation < expected + 2 ^ 64

structure Current (s : CachedPdpResolver) : Prop where
  upToDate : s.cache.UpToDate s.engine
  cleared : s.cache.generation ≤ s.generation
  fits : ∀ id phase, s.evaluations id = some phase → s.Fits id phase
  returned : ∀ id computed g, (id, .ok (computed, .cache (some g))) ∈ s.returned →
    computed.askedUnder = g ∧ computed.answeredUnder = g

variable {s : CachedPdpResolver} {id : ℕ}

theorem Current.setPhase (h : s.Current) {phase : EvaluationPhase} (hphase : s.Fits id phase) :
    (s.setPhase id phase).Current where
  upToDate := h.upToDate
  cleared := h.cleared
  fits other p hp := by
    by_cases hid : other = id
    · obtain rfl : phase = p := by simpa [CachedPdpResolver.setPhase, hid] using hp
      exact hid ▸ hphase
    · exact h.fits other p (by simpa [CachedPdpResolver.setPhase, hid] using hp)
  returned := h.returned

theorem Current.finishWith (h : s.Current) (id : ℕ)
    {result : Except PdpError (Computed × DecisionSource)}
    (hresult : ∀ computed g, result = .ok (computed, .cache (some g)) →
      computed.askedUnder = g ∧ computed.answeredUnder = g) :
    (s.finishWith id result).Current where
  upToDate := h.upToDate
  cleared := h.cleared
  fits other p hp := by
    by_cases hid : other = id
    · simp [CachedPdpResolver.finishWith, hid] at hp
    · exact h.fits other p (by simpa [CachedPdpResolver.finishWith, hid] using hp)
  returned other computed g hmem := by
    rcases List.mem_append.1 hmem with hmem | hmem
    · exact h.returned other computed g hmem
    · exact hresult computed g (Prod.mk.inj (List.mem_singleton.1 hmem)).2.symm

/-- What an evaluation without the lock has seen stays behind the store. -/
theorem Fits.of_holder_ne {t : CachedPdpResolver} {phase : EvaluationPhase} (h : s.Fits id phase)
    (hother : s.holder ≠ some id) (hcache : s.cache.generation ≤ t.cache.generation)
    (hsame : t.generation = s.generation) : t.Fits id phase := by
  cases phase with
  | begun _ => trivial
  | looking _ _ => exact absurd h.1 hother
  | asking _ _ _ => exact ⟨h.1.trans hcache, h.2.1, hsame ▸ h.2.2⟩
  | answered _ _ _ _ _ => exact ⟨h.1.trans hcache, h.2.1, h.2.2.1, hsame ▸ h.2.2.2⟩
  | inserting _ _ _ _ _ _ => exact absurd h.1.1 hother

theorem Current.release (h : s.Current) {current : Option ℕ} (hheld : s.Holds id current)
    {cache : DecisionCache} (stats : DecisionCacheStats) (hdate : cache.UpToDate s.engine)
    (hgeneration : cache.generation = current.getD s.cache.generation) :
    (s.release id cache stats).Current := by
  have hmoved : s.cache.generation ≤ cache.generation ∧ cache.generation ≤ s.generation := by
    rw [hgeneration]
    cases current with
    | none => exact ⟨le_rfl, h.cleared⟩
    | some g => exact ⟨(hheld.2.near g rfl).1, hheld.2.read g rfl⟩
  refine ⟨hdate, hmoved.2, fun other p hp => ?_, h.returned⟩
  by_cases hid : other = id
  · simp [CachedPdpResolver.release, hid] at hp
  · have hfits := h.fits other p (by simpa [CachedPdpResolver.release, hid] using hp)
    have hother : s.holder ≠ some other := by
      rw [hheld.1]
      exact fun heq => hid (Option.some.inj heq).symm
    exact hfits.of_holder_ne hother hmoved.1 rfl

theorem Current.afterLookup (h : s.Current) {key : List UInt8} {current : Option ℕ}
    (hheld : s.Holds id current) (now : ℕ) :
    (s.afterLookup id key current (s.cache.lookup current key now)).Current := by
  have hdate := h.upToDate.lookup current key now
  have hgeneration := DecisionCache.generation_maybeClearForGeneration hheld.2.near
  have hhit : ∀ computed g, (s.cache.lookup current key now).1 = .hit computed → current = some g →
      computed.askedUnder = g ∧ computed.answeredUnder = g := by
    rintro computed g hfound rfl
    exact (hheld.2.engine ▸ h.upToDate).hit hheld.2.near hfound
  have hsame : (s.cache.lookup current key now).2.1 =
      (s.cache.lookup current key now).2.2.generation := rfl
  replace hgeneration : (s.cache.lookup current key now).2.2.generation = _ := hgeneration
  generalize s.cache.lookup current key now = found at *
  obtain ⟨found, generation, cache⟩ := found
  dsimp only at *
  have hreleased (stats : DecisionCacheStats) := h.release hheld stats hdate hgeneration
  have hseen := (hreleased s.stats).cleared
  cases found with
  | hit computed =>
    refine (hreleased _).finishWith id fun other g heq => ?_
    cases heq
    exact hhit computed g rfl rfl
  | expired => exact (hreleased _).setPhase ⟨hsame.le, hsame.trans_le hseen, le_rfl⟩
  | miss => exact (hreleased _).setPhase ⟨hsame.le, hsame.trans_le hseen, le_rfl⟩

theorem Current.bump (h : s.Current) :
    ({ s with generation := s.generation + 1 } : CachedPdpResolver).Current := by
  refine ⟨h.upToDate, Nat.le_succ_of_le h.cleared, fun id phase hphase => ?_, h.returned⟩
  have hfits := h.fits id phase hphase
  have hheld : ∀ {current}, s.Holds id current →
      Holds { s with generation := s.generation + 1 } id current := fun held =>
    ⟨held.1, held.2.engine, held.2.near, fun g hg => Nat.le_succ_of_le (held.2.read g hg)⟩
  cases phase with
  | begun _ => trivial
  | looking _ _ => exact hheld hfits
  | asking _ _ _ => exact ⟨hfits.1, hfits.2.1, Nat.le_succ_of_le hfits.2.2⟩
  | answered _ _ _ _ _ =>
    exact ⟨hfits.1, hfits.2.1, hfits.2.2.1, Nat.le_succ_of_le hfits.2.2.2⟩
  | inserting _ _ _ _ _ _ => exact ⟨hheld hfits.1, hfits.2⟩

theorem Current.drop (h : s.Current) (hfree : s.holder = none) :
    ({ s with engine := false } : CachedPdpResolver).Current := by
  refine ⟨fun key slot hslot => ?_, h.cleared, fun id phase hphase => ?_, h.returned⟩
  · obtain ⟨hasked, hanswered, -⟩ := h.upToDate key slot hslot
    exact ⟨hasked, hanswered, nofun⟩
  · exact (h.fits id phase hphase).of_holder_ne (by rw [hfree]; nofun) le_rfl rfl

theorem configGeneration_cases (s : CachedPdpResolver) :
    (s.engine = false ∧ s.configGeneration = none) ∨
      s.engine = true ∧ s.configGeneration = some s.generation := by
  unfold configGeneration
  cases s.engine <;> simp

theorem Current.holds (h : s.Current) (hword : s.generation < s.cache.generation + 2 ^ 64) :
    Holds { s with holder := some id } id s.configGeneration := by
  rcases s.configGeneration_cases with ⟨hengine, hread⟩ | ⟨hengine, hread⟩
  · rw [hread]
    exact ⟨rfl, hengine.symm, nofun, nofun⟩
  · rw [hread]
    refine ⟨rfl, hengine.symm, ?_, ?_⟩
    · rintro g ⟨⟩
      exact ⟨h.cleared, hword⟩
    · rintro g ⟨⟩
      exact le_rfl

theorem Current.hold (h : s.Current) (hfree : s.holder = none) (id : ℕ) :
    ({ s with holder := some id } : CachedPdpResolver).Current := by
  refine ⟨h.upToDate, h.cleared, fun other phase hphase => ?_, h.returned⟩
  exact (h.fits other phase hphase).of_holder_ne (by rw [hfree]; nofun) le_rfl rfl

section Runs

variable [DigestBackend]

theorem Current.step (h : s.Current) (lastInstant : ℕ) (event : CacheEvent)
    (hword : s.WithinWord event) : (s.step lastInstant event).Current := by
  cases event with
  | bump =>
    rw [CachedPdpResolver.step]
    split_ifs
    · exact h.bump
    · exact h
  | drop =>
    rw [CachedPdpResolver.step]
    split_ifs with hfree
    · exact h.drop hfree
    · exact h
  | evaluateStructured id e order =>
    rw [CachedPdpResolver.step]
    split
    · exact h
    · split
      · exact h.setPhase trivial
      · exact h.finishWith id fun _ _ heq => by cases heq
  | lock id =>
    rw [CachedPdpResolver.step]
    split
    · next hfree hphase =>
      simp only [WithinWord, hphase] at hword
      exact (h.hold hfree id).setPhase (h.holds hword)
    · next hfree hphase =>
      simp only [WithinWord, hphase] at hword
      obtain ⟨hexpected, hasked, hanswered, hforce⟩ := h.fits id _ hphase
      have hheld : Holds { s with holder := some id } id _ := h.holds (by omega)
      refine (h.hold hfree id).setPhase ⟨hheld, hexpected, hasked, hanswered, ?_⟩
      rcases s.configGeneration_cases with ⟨-, hread⟩ | ⟨-, hread⟩
      · rw [hread]
        exact ⟨nofun, h.cleared.trans_lt hword⟩
      · rw [hread]
        exact ⟨by rintro g ⟨⟩; exact hforce, hword⟩
    · exact h
  | finish id now =>
    rw [CachedPdpResolver.step]
    split
    · next hphase => exact h.afterLookup (h.fits id _ hphase) now
    · next hphase =>
      obtain ⟨hheld, hexpected, hasked, hanswered, hread, hnear⟩ := h.fits id _ hphase
      refine (h.release hheld _ (h.upToDate.insertIfGeneration hheld.2.near hheld.2.engine hexpected
        hasked hanswered hread hnear) ?_).finishWith id fun _ _ heq => by cases heq
      rw [DecisionCache.generation_insertIfGeneration,
        DecisionCache.generation_maybeClearForGeneration hheld.2.near]
    · exact h
  | answer id now result =>
    rw [CachedPdpResolver.step.eq_def]
    dsimp only
    split
    · exact h.finishWith id fun _ _ heq => by cases heq
    · next hphase =>
      obtain ⟨hexpected, hasked, hforce⟩ := h.fits id _ hphase
      split_ifs
      · exact h.setPhase ⟨hexpected, hasked, hforce, le_rfl⟩
      · exact h.finishWith id fun _ _ heq => by cases heq
    · exact h
  | cancel id =>
    rw [CachedPdpResolver.step]
    split
    · refine ⟨h.upToDate, h.cleared, fun other phase hphase => ?_, h.returned⟩
      by_cases hid : other = id
      · simp [hid] at hphase
      · exact h.fits other phase (by simpa [hid] using hphase)
    · exact h

/-- If no generation comes round again while it is remembered, a cached decision was asked for and
answered under the generation its reader read, and the store holds nothing older than the last
clear. -/
theorem cachedDecisions_current (config : DecisionCacheConfig) (engine : Option ℕ)
    (lastInstant : ℕ) (events : List CacheEvent)
    (hwords : AllSteps (step lastInstant) WithinWord (wrap config engine) events) :
    let s := run (step lastInstant) (wrap config engine) events
    (∀ id computed g, (id, .ok (computed, .cache (some g))) ∈ s.returned →
      computed.askedUnder = g ∧ computed.answeredUnder = g) ∧
      ∀ key slot, s.cache.store.entries.lookup key = some slot →
        s.cache.generation ≤ slot.decision.askedUnder ∧
          slot.decision.askedUnder ≤ slot.decision.answeredUnder ∧
          (s.engine = true → slot.decision.answeredUnder = s.cache.generation) := by
  have hcurrent : (run (step lastInstant) (wrap config engine) events).Current :=
    invariant_of_allSteps (fun _ event h hword => h.step lastInstant event hword)
      ⟨fun _ _ h => (by cases h), le_rfl, fun _ _ h => (by cases h), fun _ _ _ h => (by cases h)⟩
      hwords
  exact ⟨hcurrent.returned, hcurrent.upToDate⟩

theorem run_bumps (lastInstant n : ℕ) (hengine : s.engine = true) :
    run (step lastInstant) s (List.replicate n .bump) =
      { s with generation := s.generation + n } := by
  induction n generalizing s with
  | zero => rfl
  | succ n ih =>
    have hrest := ih (s := { s with generation := s.generation + 1 }) hengine
    rw [List.replicate_succ, run_cons, CachedPdpResolver.step, if_pos hengine, hrest]
    simp only [Nat.add_assoc, Nat.add_comm 1]

end Runs

section Samples

local instance oneDigest : DigestBackend where
  CryptoError := Empty
  sha256 _ := .ok []

def askedEvaluation : PdpEvaluation := ⟨⟨.cel, .null⟩, .empty, .new none none⟩

def emptyOrder : IterationOrder askedEvaluation.bag where
  entries := []
  members := sortedTexts
  enumerates := ⟨.nil, fun _ _ => by simp [askedEvaluation, AttributeBag.empty]⟩
  nodup_members := nodup_sortedTexts
  mem_members _ _ := mem_sortedTexts

def freshCache : CachedPdpResolver := wrap ⟨5, 8, by decide⟩ (some 0)

def asks (id : ℕ) : List CacheEvent :=
  [.evaluateStructured id askedEvaluation emptyOrder, .lock id, .finish id 1]

def answered : List CacheEvent := asks 0 ++ [.answer 0 1 (.ok ⟨.allow, []⟩)]

def storedAndAsked : List CacheEvent := .lock 0 :: .finish 0 1 :: asks 1

theorem cachedDecisions_current_hit :
    let s := run (step 100) freshCache (answered ++ storedAndAsked)
    s.stats.hits = 1 ∧ ∀ id computed g, (id, .ok (computed, .cache (some g))) ∈ s.returned →
      computed.askedUnder = g ∧ computed.answeredUnder = g := by
  have hword : 0 < 0 + 2 ^ 64 := by decide
  refine ⟨rfl, (cachedDecisions_current ⟨5, 8, by decide⟩ (some 0) 100
    (answered ++ storedAndAsked) ?_).1⟩
  exact ⟨trivial, hword, trivial, trivial, hword, trivial, trivial, hword, trivial, trivial⟩

/-- A decision waits to be stored while the generation comes round to where it was, and is then
served. -/
theorem stale_decision_served :
    (run (step 100) freshCache
      (answered ++ (List.replicate (2 ^ 64) .bump ++ storedAndAsked))).returned =
      [(0, .ok (⟨⟨.allow, []⟩, 0, 0⟩, .inner)),
        (1, .ok (⟨⟨.allow, []⟩, 0, 0⟩, .cache (some (2 ^ 64))))] := by
  rw [run_append, run_append, run_bumps _ _ rfl]
  rfl

end Samples

end CachedPdpResolver

end PraxisPolicy
