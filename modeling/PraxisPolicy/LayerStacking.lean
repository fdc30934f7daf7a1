import PraxisPolicy.RuleTrees

/-!
# Stacking policy layers

A narrower layer appends its steps, and its field rules take the place of those of the same fields.
-/

namespace PraxisPolicy

open HashMaps

variable {Override Response : Type}

/-- With what layers carry besides the four phases. -/
structure LayeredRoute (Override Response : Type) extends CompiledRoute where
  pluginOverrides : HashMap String Override
  response : Option Response

section FieldRules

def declares (rules : List FieldRule) (field : String) : Bool :=
  rules.any fun rule => rule.field = field

def replaceFields (rules more : List FieldRule) : List FieldRule :=
  rules.filter (fun rule => !declares more rule.field) ++ more

def rulesOf (field : String) (rules : List FieldRule) : List FieldRule :=
  rules.filter fun rule => rule.field = field

def lastDeclared (field : String) (layers : List (List FieldRule)) : List FieldRule :=
  rulesOf field ((layers.reverse.find? (declares · field)).getD [])

variable {rules more : List FieldRule} {field : String}

theorem rulesOf_eq_nil (h : declares rules field = false) : rulesOf field rules = [] := by
  simpa [rulesOf, declares] using h

theorem declares_append :
    declares (rules ++ more) field = (declares rules field || declares more field) :=
  List.any_append

theorem declares_replaceFields :
    declares (replaceFields rules more) field = (declares rules field || declares more field) := by
  rw [replaceFields, declares_append]
  cases hmore : declares more field with
  | true => simp
  | false =>
    have hkept : declares (rules.filter fun rule => !declares more rule.field) field =
        declares rules field := by
      rw [Bool.eq_iff_iff]
      simp only [declares, List.any_filter, List.any_eq_true, Bool.and_eq_true, decide_eq_true_eq]
      refine exists_congr fun rule => and_congr_right fun _ => and_iff_right_of_imp ?_
      rintro rfl
      simpa [declares] using hmore
    rw [hkept]

/-- Rules that a later layer redefines are gone, whichever way the layers are applied. -/
theorem replaceFields_assoc (rules more last : List FieldRule) :
    replaceFields (replaceFields rules more) last =
      replaceFields rules (replaceFields more last) := by
  have hfilter : ∀ rule : FieldRule, (!declares last rule.field && !declares more rule.field) =
      !declares (replaceFields more last) rule.field := by
    intro rule
    rw [declares_replaceFields, Bool.not_or, Bool.and_comm]
  rw [replaceFields, replaceFields, replaceFields, List.filter_append, List.filter_filter,
    List.append_assoc]
  simp only [hfilter]
  rfl

theorem rulesOf_replaceFields :
    rulesOf field (replaceFields rules more) =
      if declares more field then rulesOf field more else rulesOf field rules := by
  have hkept : rulesOf field (rules.filter fun rule => !declares more rule.field) =
      if declares more field then [] else rulesOf field rules := by
    rw [rulesOf, List.filter_filter]
    split_ifs with hmore
    · refine List.filter_eq_nil_iff.2 fun rule _ => ?_
      rintro h
      obtain ⟨rfl, hnew⟩ : rule.field = field ∧ declares more rule.field = false := by simpa using h
      exact Bool.false_ne_true (hnew.symm.trans hmore)
    · refine List.filter_congr fun rule _ => ?_
      by_cases hfield : rule.field = field <;> simp_all
  rw [replaceFields, rulesOf, List.filter_append]
  refine (congrArg (· ++ _) hkept).trans ?_
  split_ifs with hmore
  · rfl
  · have hnone := rulesOf_eq_nil (Bool.eq_false_of_not_eq_true hmore)
    exact (congrArg (_ ++ ·) hnone).trans (List.append_nil _)

theorem lastDeclared_concat (layers : List (List FieldRule)) :
    lastDeclared field (layers ++ [more]) =
      if declares more field then rulesOf field more else lastDeclared field layers := by
  rw [lastDeclared, List.reverse_append, List.reverse_singleton, List.singleton_append,
    List.find?_cons]
  cases declares more field <;> rfl

end FieldRules

namespace LayeredRoute

def new (routeKey : String) : LayeredRoute Override Response :=
  ⟨⟨routeKey, [], [], [], []⟩, ∅, none⟩

/-- A denial response stays with the scope that owns it. -/
def applyLayer (self moreSpecific : LayeredRoute Override Response) :
    LayeredRoute Override Response where
  routeKey := self.routeKey
  args := replaceFields self.args moreSpecific.args
  preInvocation := self.preInvocation ++ moreSpecific.preInvocation
  result := replaceFields self.result moreSpecific.result
  postInvocation := self.postInvocation ++ moreSpecific.postInvocation
  pluginOverrides := extend self.pluginOverrides moreSpecific.pluginOverrides
  response := self.response

/-- The least specific first. -/
def applyLayers (base : LayeredRoute Override Response)
    (layers : List (LayeredRoute Override Response)) : LayeredRoute Override Response :=
  layers.foldl applyLayer base

variable (a b c : LayeredRoute Override Response)

theorem applyLayer_assoc : (a.applyLayer b).applyLayer c = a.applyLayer (b.applyLayer c) := by
  have hoverrides : extend (extend a.pluginOverrides b.pluginOverrides) c.pluginOverrides =
      extend a.pluginOverrides (extend b.pluginOverrides c.pluginOverrides) :=
    Finmap.ext_lookup fun name => by simp [Option.or_assoc]
  simp only [applyLayer, replaceFields_assoc, List.append_assoc, hoverrides]

theorem applyLayer_new (routeKey : String) : a.applyLayer (new routeKey) = a := by
  have hoverrides : extend a.pluginOverrides ∅ = a.pluginOverrides :=
    Finmap.ext_lookup fun name => by simp
  simp [applyLayer, new, replaceFields, declares, hoverrides]

theorem new_applyLayer (routeKey : String) :
    (new routeKey).applyLayer a = { a with routeKey := routeKey, response := none } := by
  have hoverrides : extend ∅ a.pluginOverrides = a.pluginOverrides :=
    Finmap.ext_lookup fun name => by simp
  simp [applyLayer, new, replaceFields, hoverrides]

theorem applyLayers_steps (layers : List (LayeredRoute Override Response)) :
    (a.applyLayers layers).routeKey = a.routeKey ∧ (a.applyLayers layers).response = a.response ∧
      (a.applyLayers layers).preInvocation = (a :: layers).flatMap (·.preInvocation) ∧
      (a.applyLayers layers).postInvocation = (a :: layers).flatMap (·.postInvocation) := by
  induction layers generalizing a with
  | nil => simp [applyLayers]
  | cons layer layers ih =>
    have hsteps := ih (a.applyLayer layer)
    simp only [List.flatMap_cons, applyLayer, List.append_assoc] at hsteps ⊢
    exact hsteps

theorem rulesOf_applyLayers (part : LayeredRoute Override Response → List FieldRule)
    (hpart : ∀ a b, part (a.applyLayer b) = replaceFields (part a) (part b)) (field : String)
    (layers : List (LayeredRoute Override Response)) :
    rulesOf field (part (a.applyLayers layers)) =
      lastDeclared field ((a :: layers).map part) := by
  induction layers using List.reverseRecOn with
  | nil =>
    have hone : lastDeclared field [part a] = if declares (part a) field then _ else _ :=
      lastDeclared_concat []
    rw [applyLayers, List.foldl_nil, List.map_singleton, hone]
    split_ifs with hdeclares
    · rfl
    · exact rulesOf_eq_nil (Bool.eq_false_of_not_eq_true hdeclares)
  | append_singleton layers layer ih =>
    have hlast : a.applyLayers (layers ++ [layer]) = (a.applyLayers layers).applyLayer layer :=
      List.foldl_append
    rw [hlast, hpart, rulesOf_replaceFields, ih, ← List.cons_append, List.map_append,
      List.map_singleton, lastDeclared_concat]

/-- Layers form a monoid that acts on routes; a stack runs all steps in order, with the field rules
of the last layer that has any for the field. -/
theorem layers_stack :
    (∀ a b c : LayeredRoute Override Response,
      (a.applyLayer b).applyLayer c = a.applyLayer (b.applyLayer c)) ∧
    (∀ (a : LayeredRoute Override Response) routeKey, a.applyLayer (new routeKey) = a ∧
      (new routeKey).applyLayer a = { a with routeKey := routeKey, response := none }) ∧
    ∀ (base : LayeredRoute Override Response) layers,
      let e := base.applyLayers layers
      e.routeKey = base.routeKey ∧ e.response = base.response ∧
        e.preInvocation = (base :: layers).flatMap (·.preInvocation) ∧
        e.postInvocation = (base :: layers).flatMap (·.postInvocation) ∧
        ∀ field, rulesOf field e.args = lastDeclared field ((base :: layers).map (·.args)) ∧
          rulesOf field e.result = lastDeclared field ((base :: layers).map (·.result)) := by
  refine ⟨applyLayer_assoc, fun a k => ⟨applyLayer_new a k, new_applyLayer a k⟩, ?_⟩
  intro base layers
  obtain ⟨hkey, hresponse, hpre, hpost⟩ := applyLayers_steps base layers
  exact ⟨hkey, hresponse, hpre, hpost, fun field =>
    ⟨rulesOf_applyLayers base (·.args) (fun _ _ => rfl) field layers,
      rulesOf_applyLayers base (·.result) (fun _ _ => rfl) field layers⟩⟩

end LayeredRoute

end PraxisPolicy
