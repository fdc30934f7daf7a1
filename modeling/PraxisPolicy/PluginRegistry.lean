import PraxisPolicy.HashMaps
import PraxisPolicy.SortedLists
import PraxisPolicy.StepRuns

/-!
# The plugin registry

The handlers of a hook are the stable sort by priority of what the registrations in force name for
it, in the order they were made.
-/

namespace PraxisPolicy.Registry

open HashMaps SortedLists StepRuns

section Registries

structure PluginConfig where
  name : String
  priority : ℤ
  deriving DecidableEq

/-- With the loader's configuration and the registry's identifier. -/
structure PluginRef (P : Type) where
  plugin : P
  trustedConfig : PluginConfig
  id : ℕ
  deriving DecidableEq

variable {P H : Type}

def PluginRef.name (r : PluginRef P) : String := r.trustedConfig.name

def PluginRef.priority (r : PluginRef P) : ℤ := r.trustedConfig.priority

class AnyHookHandler (H : Type) where
  hookTypeName : H → String

structure HookEntry (P H : Type) where
  pluginRef : PluginRef P
  handler : H
  deriving DecidableEq

def HookEntry.priority (e : HookEntry P H) : ℤ := e.pluginRef.priority

structure PluginRegistry (P H : Type) where
  plugins : HashMap String (PluginRef P)
  hookIndex : HashMap String (List (HookEntry P H))

/-- `none` without metadata, or if it names no family. -/
abbrev HookFamilies := String → Option String

def checkHandlerFamily [AnyHookHandler H] (families : HookFamilies) (pluginName hookName : String)
    (handler : H) : Except String Unit :=
  match families hookName with
  | none => .ok ()
  | some expected =>
    let reported := AnyHookHandler.hookTypeName handler
    if reported = expected then .ok ()
    else .error ("plugin '" ++ pluginName ++ "' declares hook '" ++ hookName ++
      "', which belongs to the '" ++ expected ++ "' hook family, but its handler serves '" ++
      reported ++ "'")

def pushEntry (index : HashMap String (List (HookEntry P H))) (hook : String)
    (entry : HookEntry P H) : HashMap String (List (HookEntry P H)) :=
  index.insert hook ((index.lookup hook).getD [] ++ [entry])

def sortHook (index : HashMap String (List (HookEntry P H))) (hook : String) :
    HashMap String (List (HookEntry P H)) :=
  match index.lookup hook with
  | some entries => index.insert hook (sortOn HookEntry.priority entries)
  | none => index

namespace PluginRegistry

def new : PluginRegistry P H := ⟨∅, ∅⟩

section Register

variable [AnyHookHandler H]

/-- Every pair is checked before anything is recorded. -/
def registerMultiHandler (r : PluginRegistry P H) (families : HookFamilies) (id : ℕ) (plugin : P)
    (config : PluginConfig) (handlers : List (String × H)) :
    Except String Unit × PluginRegistry P H :=
  if config.name ∈ r.plugins then
    (.error ("plugin '" ++ config.name ++ "' is already registered"), r)
  else
    match handlers.forM fun h => checkHandlerFamily families config.name h.1 h.2 with
    | .error message => (.error message, r)
    | .ok () =>
      let pluginRef : PluginRef P := ⟨plugin, config, id⟩
      let index := handlers.foldl (fun index h => pushEntry index h.1 ⟨pluginRef, h.2⟩) r.hookIndex
      (.ok (), {
        plugins := r.plugins.insert config.name pluginRef
        hookIndex := handlers.foldl (fun index h => sortHook index h.1) index })

def registerForNamesInner (r : PluginRegistry P H) (families : HookFamilies) (id : ℕ) (plugin : P)
    (config : PluginConfig) (handler : H) (names : List String) :
    Except String Unit × PluginRegistry P H :=
  r.registerMultiHandler families id plugin config (names.map fun name => (name, handler))

def register (r : PluginRegistry P H) (families : HookFamilies) (id : ℕ) (plugin : P)
    (config : PluginConfig) (handler : H) (hookName : String) :
    Except String Unit × PluginRegistry P H :=
  r.registerForNamesInner families id plugin config handler [hookName]

end Register

def unregister (r : PluginRegistry P H) (name : String) :
    Option (PluginRef P) × PluginRegistry P H :=
  match r.plugins.lookup name with
  | none => (none, r)
  | some pluginRef =>
    let left := mapValues (fun _ entries => entries.filter fun e => e.pluginRef.name != name)
      r.hookIndex
    (some pluginRef, {
      plugins := r.plugins.erase name
      hookIndex := retainValues (fun entries => !entries.isEmpty) left })

def entriesForHook (r : PluginRegistry P H) (hook : String) : List (HookEntry P H) :=
  (r.hookIndex.lookup hook).getD []

end PluginRegistry

end Registries

section Registrations

variable {P H : Type}

/-- The plugin, and its handlers under the names they were given for. -/
structure Registration (P H : Type) where
  pluginRef : PluginRef P
  handlers : List (String × H)

def Registration.name (reg : Registration P H) : String := reg.pluginRef.name

def Registration.entries (reg : Registration P H) (hook : String) : List (HookEntry P H) :=
  (reg.handlers.filter fun h => h.1 = hook).map fun h => ⟨reg.pluginRef, h.2⟩

/-- In the order they were made. -/
def namedFor (log : List (Registration P H)) (hook : String) : List (HookEntry P H) :=
  log.flatMap fun reg => reg.entries hook

def Accepts [AnyHookHandler H] (log : List (Registration P H)) (families : HookFamilies)
    (config : PluginConfig) (handlers : List (String × H)) : Prop :=
  (∀ reg ∈ log, reg.name ≠ config.name) ∧
    ∀ h ∈ handlers, ∀ expected ∈ families h.1, AnyHookHandler.hookTypeName h.2 = expected

structure Holds (r : PluginRegistry P H) (log : List (Registration P H)) : Prop where
  nodup : (log.map Registration.name).Nodup
  plugins : ∀ name ref, r.plugins.lookup name = some ref ↔
    ∃ reg ∈ log, reg.pluginRef = ref ∧ reg.name = name
  hooks : ∀ hook, r.hookIndex.lookup hook =
    if namedFor log hook = [] then none
    else some (sortOn HookEntry.priority (namedFor log hook))

theorem holds_new : Holds (PluginRegistry.new : PluginRegistry P H) [] where
  nodup := .nil
  plugins name ref := by simp [PluginRegistry.new]
  hooks hook := by simp [PluginRegistry.new, namedFor]

variable {r : PluginRegistry P H} {log : List (Registration P H)}

theorem Holds.entriesForHook (h : Holds r log) (hook : String) :
    r.entriesForHook hook = sortOn HookEntry.priority (namedFor log hook) := by
  rw [PluginRegistry.entriesForHook, h.hooks]
  split_ifs with hnone
  · rw [hnone]
    rfl
  · rfl

theorem Holds.mem_plugins (h : Holds r log) (name : String) :
    name ∈ r.plugins ↔ ∃ reg ∈ log, reg.name = name := by
  rw [Finmap.mem_iff]
  constructor
  · rintro ⟨ref, href⟩
    obtain ⟨reg, hreg, -, hname⟩ := (h.plugins name ref).1 href
    exact ⟨reg, hreg, hname⟩
  · rintro ⟨reg, hreg, hname⟩
    exact ⟨reg.pluginRef, (h.plugins name _).2 ⟨reg, hreg, rfl, hname⟩⟩

variable {reg : Registration P H}

theorem name_of_mem_entries {hook : String} {e : HookEntry P H} (h : e ∈ reg.entries hook) :
    e.pluginRef = reg.pluginRef := by
  obtain ⟨_, -, rfl⟩ := List.mem_map.1 h
  rfl

theorem entries_cons (pluginRef : PluginRef P) (h : String × H) (handlers : List (String × H))
    (hook : String) :
    (⟨pluginRef, h :: handlers⟩ : Registration P H).entries hook =
      if h.1 = hook then
        ⟨pluginRef, h.2⟩ :: (⟨pluginRef, handlers⟩ : Registration P H).entries hook
      else (⟨pluginRef, handlers⟩ : Registration P H).entries hook := by
  simp only [Registration.entries, List.filter_cons, decide_eq_true_eq]
  split_ifs <;> rfl

theorem lookup_pushEntries (pluginRef : PluginRef P) (handlers : List (String × H))
    (index : HashMap String (List (HookEntry P H))) (hook : String) :
    (handlers.foldl (fun index h => pushEntry index h.1 ⟨pluginRef, h.2⟩) index).lookup hook =
      if (⟨pluginRef, handlers⟩ : Registration P H).entries hook = [] then index.lookup hook
      else some ((index.lookup hook).getD [] ++
        (⟨pluginRef, handlers⟩ : Registration P H).entries hook) := by
  induction handlers generalizing index with
  | nil => simp [Registration.entries]
  | cons h handlers ih =>
    rw [List.foldl_cons, ih, entries_cons, pushEntry, lookup_insert_eq]
    by_cases hname : h.1 = hook
    · rw [if_pos hname.symm, if_pos hname, if_neg (List.cons_ne_nil _ _), hname]
      split_ifs with hnone
      · rw [hnone]
      · rw [Option.getD_some, List.append_assoc, List.singleton_append]
    · rw [if_neg (Ne.symm hname), if_neg hname]

theorem lookup_sortHooks (handlers : List (String × H))
    (index : HashMap String (List (HookEntry P H))) (hook : String) :
    (handlers.foldl (fun index h => sortHook index h.1) index).lookup hook =
      if ∃ h ∈ handlers, h.1 = hook then
        (index.lookup hook).map (sortOn HookEntry.priority)
      else index.lookup hook := by
  induction handlers generalizing index with
  | nil => simp
  | cons h handlers ih =>
    have hsort : (sortHook index h.1).lookup hook =
        if h.1 = hook then (index.lookup hook).map (sortOn HookEntry.priority)
        else index.lookup hook := by
      unfold sortHook
      split
      · next entries hentries =>
        rw [lookup_insert_eq]
        split_ifs with h₁ h₂ h₂
        · rw [h₁, hentries]
          rfl
        · exact absurd h₁.symm h₂
        · exact absurd h₂.symm h₁
        · rfl
      · next hnone =>
        split_ifs with h₁
        · rw [← h₁, hnone]
          rfl
        · rfl
    rw [List.foldl_cons, ih, hsort]
    by_cases hname : h.1 = hook
    · simp only [hname, List.mem_cons, exists_eq_or_imp, true_or, if_true, Option.map_map]
      split_ifs
      · congr 1
        funext entries
        exact sortOn_eq_self (pairwise_sortOn _ entries)
      · rfl
    · have hiff : (∃ x ∈ h :: handlers, x.1 = hook) ↔ ∃ x ∈ handlers, x.1 = hook := by
        simp [hname]
      simp only [hname, if_false, hiff]

theorem entries_eq_nil_iff {hook : String} :
    reg.entries hook = [] ↔ ¬ ∃ h ∈ reg.handlers, h.1 = hook := by
  rw [Registration.entries, List.map_eq_nil_iff, List.filter_eq_nil_iff]
  simp only [decide_eq_true_eq, not_exists, not_and]

theorem Holds.register (h : Holds r log) (reg : Registration P H)
    (hfree : ∀ other ∈ log, other.name ≠ reg.name) :
    Holds { plugins := r.plugins.insert reg.name reg.pluginRef
            hookIndex := reg.handlers.foldl (fun index x => sortHook index x.1)
              (reg.handlers.foldl (fun index x => pushEntry index x.1 ⟨reg.pluginRef, x.2⟩)
                r.hookIndex) } (log ++ [reg]) where
  nodup := by
    rw [List.map_append, List.nodup_append]
    refine ⟨h.nodup, List.nodup_singleton _, ?_⟩
    intro name hname name' hname'
    obtain ⟨other, hother, rfl⟩ := List.mem_map.1 hname
    rw [List.mem_singleton.1 hname']
    exact hfree other hother
  plugins name ref := by
    rw [lookup_insert_eq]
    split_ifs with hname
    · subst hname
      constructor
      · intro heq
        exact ⟨reg, by simp, Option.some.inj heq, rfl⟩
      · rintro ⟨other, hother, rfl, hname⟩
        rcases List.mem_append.1 hother with hother | hother
        · exact absurd hname (hfree other hother)
        · rw [List.mem_singleton.1 hother]
    · rw [h.plugins]
      constructor
      · rintro ⟨other, hother, hfound⟩
        exact ⟨other, List.mem_append_left _ hother, hfound⟩
      · rintro ⟨other, hother, href, hfound⟩
        rcases List.mem_append.1 hother with hother | hother
        · exact ⟨other, hother, href, hfound⟩
        · rw [List.mem_singleton.1 hother] at hfound
          exact absurd hfound.symm hname
  hooks hook := by
    have hnamed : namedFor (log ++ [reg]) hook = namedFor log hook ++ reg.entries hook := by
      simp [namedFor]
    have hold := h.entriesForHook hook
    rw [PluginRegistry.entriesForHook] at hold
    rw [lookup_sortHooks, lookup_pushEntries, hnamed, hold]
    by_cases hnone : reg.entries hook = []
    · rw [if_pos hnone, if_neg (entries_eq_nil_iff.1 hnone), hnone, List.append_nil]
      exact h.hooks hook
    · have hnamesHook := not_not.1 (mt entries_eq_nil_iff.2 hnone)
      rw [if_neg hnone, if_pos hnamesHook, if_neg fun hnil => hnone (List.append_eq_nil_iff.1 hnil).2,
        Option.map_some, sortOn_sortOn_append]

theorem filter_namedFor (log : List (Registration P H)) (hook : String) (p : String → Bool) :
    (namedFor log hook).filter (fun e => p e.pluginRef.name) =
      namedFor (log.filter fun reg => p reg.name) hook := by
  induction log with
  | nil => rfl
  | cons reg log ih =>
    have hcons : ∀ (reg : Registration P H) log, namedFor (reg :: log) hook =
        reg.entries hook ++ namedFor log hook := fun _ _ => List.flatMap_cons
    rw [hcons, List.filter_append, ih, List.filter_cons]
    split_ifs with hp
    · rw [hcons, List.filter_eq_self.2 fun e he => by rwa [name_of_mem_entries he]]
    · rw [List.filter_eq_nil_iff.2 fun e he => by rwa [name_of_mem_entries he], List.nil_append]

theorem Holds.unregister (h : Holds r log) (name : String) :
    Holds (r.unregister name).2 (log.filter fun reg => reg.name != name) := by
  unfold PluginRegistry.unregister
  split
  · next hnone =>
    have hall : (log.filter fun reg => reg.name != name) = log := by
      refine List.filter_eq_self.2 fun reg hreg => bne_iff_ne.2 fun hname => ?_
      have hmem := (h.mem_plugins name).2 ⟨reg, hreg, hname⟩
      exact Finmap.lookup_eq_none.1 hnone hmem
    rw [hall]
    exact h
  · refine ⟨(h.nodup.sublist ?_), fun other ref => ?_, fun hook => ?_⟩
    · exact List.filter_sublist.map _
    · by_cases hother : other = name
      · subst hother
        simp only [Finmap.lookup_erase, reduceCtorEq, List.mem_filter, bne_iff_ne, false_iff]
        rintro ⟨reg, ⟨-, hne⟩, -, hname⟩
        exact hne hname
      · rw [Finmap.lookup_erase_ne hother, h.plugins]
        constructor
        · rintro ⟨reg, hreg, href, rfl⟩
          exact ⟨reg, List.mem_filter.2 ⟨hreg, bne_iff_ne.2 hother⟩, href, rfl⟩
        · rintro ⟨reg, hreg, hfound⟩
          exact ⟨reg, List.mem_of_mem_filter hreg, hfound⟩
    · rw [lookup_retainValues, lookup_mapValues, h.hooks,
        ← filter_namedFor log hook fun other => other != name]
      by_cases hnil : namedFor log hook = []
      · rw [if_pos hnil, hnil]
        rfl
      · rw [if_neg hnil, Option.map_some, filter_sortOn, Option.filter_some]
        by_cases hleft : (namedFor log hook).filter (fun e => e.pluginRef.name != name) = []
        · rw [hleft]
          rfl
        · rw [if_neg hleft, if_pos]
          rw [Bool.not_eq_true', List.isEmpty_eq_false_iff, ← List.length_pos_iff, length_sortOn]
          exact List.length_pos_iff.2 hleft

theorem filter_name_eq (hnodup : (log.map Registration.name).Nodup) (hreg : reg ∈ log) :
    (log.filter fun other => other.name == reg.name) = [reg] := by
  induction log with
  | nil => cases hreg
  | cons other log ih =>
    rw [List.map_cons, List.nodup_cons] at hnodup
    obtain ⟨hfresh, hnodup⟩ := hnodup
    rcases List.mem_cons.1 hreg with rfl | hreg
    · rw [List.filter_cons, if_pos (beq_self_eq_true _)]
      refine congrArg _ (List.filter_eq_nil_iff.2 fun other hother hname => hfresh ?_)
      exact List.mem_map.2 ⟨other, hother, beq_iff_eq.1 hname⟩
    · have hne : other.name ≠ reg.name := fun hname =>
        hfresh (hname ▸ List.mem_map_of_mem hreg)
      rw [List.filter_cons, if_neg (by simpa using hne), ih hnodup hreg]

theorem Holds.filter_entriesForHook (h : Holds r log) (hreg : reg ∈ log) (hook : String) :
    (r.entriesForHook hook).filter (fun e => e.pluginRef.name == reg.name) = reg.entries hook := by
  rw [h.entriesForHook, filter_sortOn, filter_namedFor log hook fun name => name == reg.name,
    filter_name_eq h.nodup hreg, namedFor, List.flatMap_singleton]
  refine sortOn_eq_self (List.pairwise_of_forall_mem_list fun e he e' he' => ?_)
  rw [HookEntry.priority, HookEntry.priority, name_of_mem_entries he, name_of_mem_entries he']

end Registrations

section Runs

variable {P H : Type} [AnyHookHandler H]

inductive RegistryOp (P H : Type) where
  | register (families : HookFamilies) (id : ℕ) (plugin : P) (config : PluginConfig) (handler : H)
      (hookName : String)
  | registerForNames (families : HookFamilies) (id : ℕ) (plugin : P) (config : PluginConfig)
      (handler : H) (names : List String)
  | registerMultiHandler (families : HookFamilies) (id : ℕ) (plugin : P) (config : PluginConfig)
      (handlers : List (String × H))
  | unregister (name : String)

def perform (r : PluginRegistry P H) :
    RegistryOp P H → Except String (Option (PluginRef P)) × PluginRegistry P H
  | .register families id plugin config handler hookName =>
    let done := r.register families id plugin config handler hookName
    (done.1.map fun _ => none, done.2)
  | .registerForNames families id plugin config handler names =>
    let done := r.registerForNamesInner families id plugin config handler names
    (done.1.map fun _ => none, done.2)
  | .registerMultiHandler families id plugin config handlers =>
    let done := r.registerMultiHandler families id plugin config handlers
    (done.1.map fun _ => none, done.2)
  | .unregister name =>
    let done := r.unregister name
    (.ok done.1, done.2)

def step (r : PluginRegistry P H) (op : RegistryOp P H) : PluginRegistry P H := (perform r op).2

instance (log : List (Registration P H)) (families : HookFamilies) (config : PluginConfig)
    (handlers : List (String × H)) : Decidable (Accepts log families config handlers) :=
  inferInstanceAs (Decidable (_ ∧ _))

def record (log : List (Registration P H)) (families : HookFamilies)
    (pluginRef : PluginRef P) (handlers : List (String × H)) : List (Registration P H) :=
  if Accepts log families pluginRef.trustedConfig handlers then log ++ [⟨pluginRef, handlers⟩]
  else log

def inForceStep (log : List (Registration P H)) : RegistryOp P H → List (Registration P H)
  | .register families id plugin config handler hookName =>
    record log families ⟨plugin, config, id⟩ [(hookName, handler)]
  | .registerForNames families id plugin config handler names =>
    record log families ⟨plugin, config, id⟩ (names.map fun name => (name, handler))
  | .registerMultiHandler families id plugin config handlers =>
    record log families ⟨plugin, config, id⟩ handlers
  | .unregister name => log.filter fun reg => reg.name != name

def inForce (ops : List (RegistryOp P H)) : List (Registration P H) := run inForceStep [] ops

theorem checkHandlerFamily_eq_ok {families : HookFamilies} {pluginName hookName : String}
    {handler : H} : checkHandlerFamily families pluginName hookName handler = .ok () ↔
      ∀ expected ∈ families hookName, AnyHookHandler.hookTypeName handler = expected := by
  unfold checkHandlerFamily
  split
  · next hnone => simp [hnone]
  · next expected hsome =>
    dsimp only
    split_ifs with h <;> simp [hsome, h]

theorem forM_eq_ok {α : Type} {f : α → Except String Unit} {l : List α} :
    l.forM f = .ok () ↔ ∀ a ∈ l, f a = .ok () := by
  induction l with
  | nil => simp [pure, Except.pure]
  | cons a l ih =>
    rw [List.forall_mem_cons, ← ih]
    cases hf : f a with
    | ok => simp [List.forM, hf, bind, Except.bind]
    | error message => simp [List.forM, hf, bind, Except.bind]

variable {r : PluginRegistry P H} {log : List (Registration P H)}

theorem Holds.registerMultiHandler (h : Holds r log) (families : HookFamilies) (id : ℕ)
    (plugin : P) (config : PluginConfig) (handlers : List (String × H)) :
    Holds (r.registerMultiHandler families id plugin config handlers).2
        (record log families ⟨plugin, config, id⟩ handlers) ∧
      ∀ message, (r.registerMultiHandler families id plugin config handlers).1 = .error message →
        (r.registerMultiHandler families id plugin config handlers).2 = r := by
  unfold PluginRegistry.registerMultiHandler
  split_ifs with htaken
  · obtain ⟨reg, hreg, hname⟩ := (h.mem_plugins _).1 htaken
    have hrefused : ¬ Accepts log families config handlers := fun haccepts =>
      haccepts.1 reg hreg hname
    refine ⟨?_, fun _ _ => rfl⟩
    rw [record, if_neg hrefused]
    exact h
  · have hfree : ∀ reg ∈ log, reg.name ≠ config.name := fun reg hreg hname =>
      htaken ((h.mem_plugins _).2 ⟨reg, hreg, hname⟩)
    split
    · next message hchecks =>
      have hrefused : ¬ Accepts log families config handlers := by
        intro haccepts
        rw [forM_eq_ok.2 fun x hx => checkHandlerFamily_eq_ok.2 (haccepts.2 x hx)] at hchecks
        cases hchecks
      refine ⟨?_, fun _ _ => rfl⟩
      rw [record, if_neg hrefused]
      exact h
    · next hchecks =>
      have haccepts : Accepts log families config handlers :=
        ⟨hfree, fun x hx => checkHandlerFamily_eq_ok.1 (forM_eq_ok.1 hchecks x hx)⟩
      refine ⟨?_, fun _ herror => by cases herror⟩
      rw [record, if_pos haccepts]
      exact h.register ⟨⟨plugin, config, id⟩, handlers⟩ hfree

theorem Holds.perform (h : Holds r log) (op : RegistryOp P H) :
    Holds (perform r op).2 (inForceStep log op) ∧
      ∀ message, (perform r op).1 = .error message → (perform r op).2 = r := by
  have herror : ∀ {result : Except String Unit} {message : String},
      (result.map fun _ => (none : Option (PluginRef P))) = .error message →
        result = .error message := by
    intro result message heq
    cases result <;> cases heq
    rfl
  cases op with
  | register families id plugin config handler hookName =>
    obtain ⟨hholds, hkept⟩ := h.registerMultiHandler families id plugin config
      [(hookName, handler)]
    exact ⟨hholds, fun message hmessage => hkept message (herror hmessage)⟩
  | registerForNames families id plugin config handler names =>
    obtain ⟨hholds, hkept⟩ := h.registerMultiHandler families id plugin config
      (names.map fun name => (name, handler))
    exact ⟨hholds, fun message hmessage => hkept message (herror hmessage)⟩
  | registerMultiHandler families id plugin config handlers =>
    obtain ⟨hholds, hkept⟩ := h.registerMultiHandler families id plugin config handlers
    exact ⟨hholds, fun message hmessage => hkept message (herror hmessage)⟩
  | unregister name => exact ⟨h.unregister name, fun message hmessage => by cases hmessage⟩

/-- Every hook's list is in the order of priority, then of registration, and holds for each plugin
in force one entry for each time it names the hook; a failed operation changes nothing;
unregistering removes the plugin, its entries, and nothing else. -/
theorem registry_invariant (ops : List (RegistryOp P H)) :
    let r := run step .new ops
    (∀ hook entries, r.hookIndex.lookup hook = some entries →
      entries.Pairwise (fun e e' => e.priority ≤ e'.priority) ∧
        (∀ priority, entries.filter (fun e => e.priority = priority) =
          (namedFor (inForce ops) hook).filter fun e => e.priority = priority) ∧
        ∀ e ∈ entries, r.plugins.lookup e.pluginRef.name = some e.pluginRef) ∧
      (∀ reg ∈ inForce ops, r.plugins.lookup reg.name = some reg.pluginRef ∧
        ∀ hook, (r.entriesForHook hook).filter (fun e => e.pluginRef.name == reg.name) =
          (reg.handlers.filter fun h => h.1 = hook).map fun h => ⟨reg.pluginRef, h.2⟩) ∧
      (∀ op message, (perform r op).1 = .error message → (perform r op).2 = r) ∧
      ∀ name, (∀ other, (r.unregister name).2.plugins.lookup other =
            if other = name then none else r.plugins.lookup other) ∧
          ∀ hook, (r.unregister name).2.hookIndex.lookup hook ≠ some [] ∧
            (r.unregister name).2.entriesForHook hook =
              (r.entriesForHook hook).filter fun e => e.pluginRef.name != name := by
  intro r
  have h : Holds r (inForce ops) := related_run (fun _ _ op h => (h.perform op).1) holds_new ops
  refine ⟨fun hook entries hentries => ?_, fun reg hreg => ?_, fun op => (h.perform op).2,
    fun name => ⟨fun other => ?_, fun hook => ?_⟩⟩
  · have hsorted := h.entriesForHook hook
    rw [PluginRegistry.entriesForHook, hentries, Option.getD_some] at hsorted
    subst hsorted
    refine ⟨pairwise_sortOn _ _, fun priority => filter_key_sortOn priority _, fun e he => ?_⟩
    obtain ⟨reg, hreg, he⟩ := List.mem_flatMap.1 (mem_sortOn.1 he)
    rw [name_of_mem_entries he]
    exact (h.plugins _ _).2 ⟨reg, hreg, rfl, rfl⟩
  · exact ⟨(h.plugins _ _).2 ⟨reg, hreg, rfl, rfl⟩, h.filter_entriesForHook hreg⟩
  · unfold PluginRegistry.unregister
    split
    · next hnone =>
      split_ifs with hother
      · rw [hother, hnone]
      · rfl
    · split_ifs with hother
      · rw [hother]
        exact Finmap.lookup_erase _ _
      · exact Finmap.lookup_erase_ne hother
  · have hafter := h.unregister name
    refine ⟨fun hempty => ?_, ?_⟩
    · rw [hafter.hooks] at hempty
      split_ifs at hempty with hnamed
      have hlength := congrArg List.length (Option.some.inj hempty)
      rw [length_sortOn] at hlength
      exact hnamed (List.length_eq_zero_iff.1 hlength)
    · rw [hafter.entriesForHook, h.entriesForHook, filter_sortOn,
        filter_namedFor _ hook fun other => other != name]

end Runs

section Repeated

/-- Handlers without a family of their own. -/
local instance unitHandler : AnyHookHandler Unit where
  hookTypeName _ := ""

/-- A hook named twice gets two entries. -/
theorem repeated_hook_two_entries :
    (run step (PluginRegistry.new : PluginRegistry Unit Unit)
      [.registerForNames (fun _ => none) 0 () ⟨"audit", 10⟩ () ["h", "h"]]).entriesForHook "h" =
      [⟨⟨(), ⟨"audit", 10⟩, 0⟩, ()⟩, ⟨⟨(), ⟨"audit", 10⟩, 0⟩, ()⟩] := by
  decide +kernel

end Repeated

end PraxisPolicy.Registry
